import NetherNet.Library.Machine

/-! A first-in first-out queue of whole packets that a reader takes in chunks: what was
taken of each packet, and what the chunks make together. -/
namespace NetherNet.Library

/-- The packets not yet taken, the head still whole; the chunks taken of the head; and the
chunks in which each earlier packet was taken. -/
structure ChunkFifo (α : Type) where
  packets : List (List α)
  part : List (List α) := []
  taken : List (List (List α)) := []

namespace ChunkFifo
variable {α : Type}

inductive Event (α : Type) where
  | put (packet : List α)
  | take (limit : Option Nat)
  | peek

/-- What `take` and `peek` answer. -/
inductive Answer (α : Type) where
  | chunk (c : Option (List α))
  | size (n : Option Nat)
  deriving DecidableEq

def Answer.chunk? : Answer α → Option (List α)
  | chunk c => c
  | size _ => none

/-- What is left of a head packet. -/
def left (f : ChunkFifo α) (head : List α) : List α := head.drop f.part.flatten.length

/-- The limit leaves nothing of `rest`. -/
def covers (limit : Option Nat) (rest : List α) : Bool := limit.all (rest.length ≤ ·)

def take (f : ChunkFifo α) (limit : Option Nat) : Option (List α) × ChunkFifo α :=
  match f.packets with
  | [] => (none, f)
  | head :: packets =>
    let rest := f.left head
    if covers limit rest then
      (some rest, { packets := packets, taken := f.taken ++ [f.part ++ [rest]] })
    else
      let chunk := rest.take (limit.getD 0)
      (some chunk, { f with part := f.part ++ [chunk] })

def peek (f : ChunkFifo α) : Option Nat := f.packets.head?.map fun head => (f.left head).length

def next (f : ChunkFifo α) : Event α → ChunkFifo α
  | .put packet => { f with packets := f.packets ++ [packet] }
  | .take limit => (f.take limit).2
  | .peek => f

def answers (f : ChunkFifo α) : Event α → List (Answer α)
  | .put _ => []
  | .take limit => [.chunk (f.take limit).1]
  | .peek => [.size f.peek]

/-- What is left of each packet. -/
def remaining (f : ChunkFifo α) : List (List α) :=
  match f.packets with
  | [] => []
  | head :: packets => f.left head :: packets

theorem take_nil {f : ChunkFifo α} (hp : f.packets = []) (limit : Option Nat) : f.take limit = (none, f) := by
  simp only [take, hp]

/-- A chunk to the end of the head packet. -/
theorem take_whole {f : ChunkFifo α} {head : List α} {packets : List (List α)} (hp : f.packets = head :: packets)
    {limit : Option Nat} (hc : covers limit (f.left head) = true) :
    f.take limit = (some (f.left head), { packets := packets, taken := f.taken ++ [f.part ++ [f.left head]] }) := by
  simp only [take, hp, hc, if_true]

/-- A chunk that ends before the head packet does. -/
theorem take_part {f : ChunkFifo α} {head : List α} {packets : List (List α)} (hp : f.packets = head :: packets) {n : Nat}
    (hn : n < (f.left head).length) :
    f.take (some n) = (some ((f.left head).take n), { f with part := f.part ++ [(f.left head).take n] }) := by
  have hc : covers (some n) (f.left head) = false := by simpa [covers] using hn
  simp only [take, hp, hc, Bool.false_eq_true, if_false, Option.getD_some]

/-- With no chunk taken of the head, all packets are left whole. -/
theorem remaining_whole {f : ChunkFifo α} (h : f.part = []) : f.remaining = f.packets := by
  unfold remaining
  cases hp : f.packets with
  | nil => rfl
  | cons head packets => simp [left, h]

/-- The packets that an event puts into the queue. -/
def arrived : Event α → List (List α)
  | .put packet => [packet]
  | _ => []

/-- All that arrived stands in the queue or was taken, and what was taken is the chunks, in
order: those of a packet make the packet, and an empty packet is one empty chunk. -/
structure Sound (f : ChunkFifo α) (arrived chunks : List (List α)) : Prop where
  arrived : arrived = f.taken.map List.flatten ++ f.packets
  chunks : chunks = f.taken.flatten ++ f.part
  part : ∀ head ∈ f.packets.head?, f.part.flatten <+: head ∧ (f.part ≠ [] → f.part.flatten.length < head.length)
  idle : f.packets = [] → f.part = []
  once : ∀ group ∈ f.taken, group.flatten = [] → group = [[]]

theorem sound_new (packets : List (List α)) : Sound { packets := packets } packets [] :=
  ⟨rfl, rfl, fun head _ => ⟨List.nil_prefix, fun h => absurd rfl h⟩, fun _ => rfl, fun group h => by cases h⟩

theorem sound_put {f : ChunkFifo α} {as cs : List (List α)} (h : f.Sound as cs) (packet : List α) :
    Sound { f with packets := f.packets ++ [packet] } (as ++ [packet]) cs := by
  refine ⟨?_, h.chunks, ?_, ?_, h.once⟩
  · rw [h.arrived, List.append_assoc]
  · intro head hhead
    cases hp : f.packets with
    | nil =>
      rw [h.idle hp]
      exact ⟨List.nil_prefix, fun hne => absurd rfl hne⟩
    | cons first packets =>
      rw [hp] at hhead
      refine h.part head ?_
      rwa [hp]
  · intro hnil
    simp at hnil

theorem sound_take {f : ChunkFifo α} {as cs : List (List α)} (h : f.Sound as cs) (limit : Option Nat) :
    Sound (f.take limit).2 as (cs ++ (f.take limit).1.toList) := by
  cases hp : f.packets with
  | nil =>
    rw [take_nil hp]
    exact ⟨h.arrived, by simpa using h.chunks, h.part, h.idle, h.once⟩
  | cons head packets =>
    obtain ⟨⟨rest, hrest⟩, hshort⟩ := h.part head (by rw [hp]; rfl)
    have hleft : f.left head = rest := by rw [left, ← hrest, List.drop_left]
    by_cases hc : covers limit (f.left head) = true
    · -- the chunk is the rest of the packet, which is through
      rw [take_whole hp hc, hleft]
      refine ⟨?_, ?_, ?_, fun _ => rfl, ?_⟩
      · rw [h.arrived, hp]
        simp [hrest]
      · rw [h.chunks]
        simp
      · exact fun head _ => ⟨List.nil_prefix, fun hne => absurd rfl hne⟩
      · intro group hg hnil
        rcases List.mem_append.mp hg with hg | hg
        · exact h.once group hg hnil
        · obtain rfl := List.mem_singleton.mp hg
          rw [List.flatten_append, List.append_eq_nil_iff, List.flatten_singleton] at hnil
          have hpart : f.part = [] := by
            by_contra hne
            have hlt := hshort hne
            rw [← hrest, hnil.1, hnil.2] at hlt
            exact absurd hlt (Nat.lt_irrefl 0)
          rw [hpart, hnil.2]
          rfl
    · -- the chunk ends before the packet does
      obtain ⟨n, rfl, hn⟩ : ∃ n, limit = some n ∧ n < rest.length := by
        cases limit with
        | none => exact absurd rfl hc
        | some n => exact ⟨n, rfl, by simpa [covers, hleft] using hc⟩
      rw [take_part hp (hleft ▸ hn), hleft]
      have hflat : (f.part ++ [rest.take n]).flatten = f.part.flatten ++ rest.take n := by simp
      refine ⟨h.arrived, ?_, ?_, fun hnil => absurd (hp.symm.trans hnil) (List.cons_ne_nil _ _), h.once⟩
      · rw [h.chunks]
        simp
      · intro head' hhead'
        obtain rfl : head = head' := by simpa [hp] using hhead'
        rw [hflat]
        refine ⟨?_, fun _ => ?_⟩
        · rw [← hrest]
          exact (List.prefix_append_right_inj _).mpr (List.take_prefix n rest)
        · have hlen := congrArg List.length hrest
          simp only [List.length_append, List.length_take] at hlen ⊢
          omega

/-- Every event keeps the account. -/
theorem sound_next {f : ChunkFifo α} {as cs : List (List α)} (h : f.Sound as cs) (e : Event α) :
    (f.next e).Sound (as ++ arrived e) (cs ++ (f.answers e).filterMap Answer.chunk?) := by
  cases e with
  | put packet =>
    rw [show (f.answers (.put packet)).filterMap Answer.chunk? = [] from rfl, List.append_nil]
    exact sound_put h packet
  | take limit =>
    have hchunk : (f.answers (.take limit)).filterMap Answer.chunk? = (f.take limit).1.toList := by
      cases hc : (f.take limit).1 <;> simp [answers, Answer.chunk?, hc]
    rw [show arrived (.take limit : Event α) = [] from rfl, List.append_nil, hchunk]
    exact sound_take h limit
  | peek =>
    rw [show arrived (.peek : Event α) = [] from rfl, show (f.answers .peek).filterMap Answer.chunk? = [] from rfl,
      List.append_nil, List.append_nil]
    exact h

theorem sound_run {f : ChunkFifo α} {as cs : List (List α)} (h : f.Sound as cs) (events : List (Event α)) :
    (Machine.run next f events).Sound (as ++ events.flatMap arrived)
      (cs ++ (Machine.collect next answers f events).filterMap Answer.chunk?) := by
  induction events generalizing f as cs with
  | nil => simpa [Machine.collect] using h
  | cons e rest ih =>
    rw [List.flatMap_cons, Machine.collect, List.filterMap_append, ← List.append_assoc, ← List.append_assoc]
    exact ih (sound_next h e)

end ChunkFifo
end NetherNet.Library
