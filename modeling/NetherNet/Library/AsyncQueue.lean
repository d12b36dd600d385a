import Mathlib.Data.List.Basic

/-! An unbounded queue whose readers are coroutines: its items, the getters that wait
for one, and those that were woken and have not gone on yet. -/
namespace NetherNet.Library

structure AsyncQueue (α : Type) where
  items : List α := []
  waiting : List Nat := []
  woken : List Nat := []
  deriving DecidableEq, Repr

namespace AsyncQueue
variable {α : Type}

/-- The getter that waits longest is woken. -/
def wakeNext (q : AsyncQueue α) : AsyncQueue α :=
  match q.waiting with
  | [] => q
  | getter :: rest => { q with waiting := rest, woken := q.woken ++ [getter] }

def put (q : AsyncQueue α) (x : α) : AsyncQueue α := { q with items := q.items ++ [x] }.wakeNext

/-- `get` from its start, or from where it was woken: an item, or the getter waits. -/
def get (q : AsyncQueue α) (getter : Nat) : Option α × AsyncQueue α :=
  match q.items with
  | [] => (none, { q with waiting := q.waiting ++ [getter] })
  | x :: rest => (some x, { q with items := rest })

/-- A woken getter leaves its place to go on. -/
def leave (q : AsyncQueue α) (index : Nat) : AsyncQueue α := { q with woken := q.woken.eraseIdx index }

/-- A getter that waits is cancelled. -/
def cancelWaiting (q : AsyncQueue α) (index : Nat) : AsyncQueue α := { q with waiting := q.waiting.eraseIdx index }

/-- A woken getter is cancelled: another one is woken in its place. -/
def cancelWoken (q : AsyncQueue α) (index : Nat) : AsyncQueue α :=
  if q.woken[index]?.isSome ∧ q.items ≠ [] then (q.leave index).wakeNext else q.leave index

section Items
variable (q : AsyncQueue α) (x : α) (index : Nat)
@[simp] theorem wakeNext_items : q.wakeNext.items = q.items := by unfold wakeNext; split <;> rfl
@[simp] theorem put_items : (q.put x).items = q.items ++ [x] := by simp [put]
@[simp] theorem leave_items : (q.leave index).items = q.items := rfl
@[simp] theorem cancelWaiting_items : (q.cancelWaiting index).items = q.items := rfl
@[simp] theorem cancelWoken_items : (q.cancelWoken index).items = q.items := by unfold cancelWoken; split <;> simp
end Items

/-- While a getter waits, every item has a woken getter that will come for it. -/
def Served (q : AsyncQueue α) : Prop := q.waiting = [] ∨ q.items.length ≤ q.woken.length

theorem served_empty : Served ({} : AsyncQueue α) := Or.inl rfl

/-- No getter waits for ever beside an item: one has been woken. -/
theorem Served.woken {q : AsyncQueue α} (h : Served q) (hi : q.items ≠ []) (hw : q.waiting ≠ []) : q.woken ≠ [] := by
  intro hwoken
  rcases h with h | h
  · exact hw h
  · rw [hwoken] at h
    exact hi (List.length_eq_zero_iff.mp (Nat.le_zero.mp h))

/-- One getter is woken for each item that is more. -/
private theorem served_wakeNext {q : AsyncQueue α} (h : q.waiting = [] ∨ q.items.length ≤ q.woken.length + 1) :
    Served q.wakeNext := by
  unfold wakeNext
  split
  · next hnone => exact Or.inl hnone
  · next getter rest hsome =>
    refine Or.inr ?_
    rcases h with h | h
    · rw [hsome] at h
      cases h
    · simpa using h

theorem Served.put {q : AsyncQueue α} (h : Served q) (x : α) : Served (q.put x) := by
  apply served_wakeNext
  rcases h with h | h
  · exact Or.inl h
  · refine Or.inr ?_
    simpa using h

theorem Served.get {q : AsyncQueue α} (h : Served q) (getter : Nat) : Served (q.get getter).2 := by
  unfold AsyncQueue.get
  split
  · next hnone => exact Or.inr (by simp [hnone])
  · next x rest hsome =>
    rcases h with h | h
    · exact Or.inl h
    · rw [hsome, List.length_cons] at h
      exact Or.inr (Nat.le_of_succ_le h)

/-- A woken getter that goes on takes an item with it, if there is one. -/
theorem Served.get_leave {q : AsyncQueue α} (h : Served q) {index : Nat} (hi : index < q.woken.length) (getter : Nat) :
    Served ((q.leave index).get getter).2 := by
  unfold AsyncQueue.get leave
  split
  · next hnone => exact Or.inr (by simp [show q.items = [] from hnone])
  · next x rest hsome =>
    rcases h with h | h
    · exact Or.inl h
    · rw [show q.items = x :: rest from hsome, List.length_cons] at h
      refine Or.inr ?_
      simp only [List.length_eraseIdx, if_pos hi]
      omega

theorem Served.cancelWaiting {q : AsyncQueue α} (h : Served q) (index : Nat) : Served (q.cancelWaiting index) := by
  rcases h with h | h
  · exact Or.inl (by simp [AsyncQueue.cancelWaiting, h])
  · exact Or.inr h

theorem Served.cancelWoken {q : AsyncQueue α} (h : Served q) (index : Nat) : Served (q.cancelWoken index) := by
  unfold AsyncQueue.cancelWoken
  have hle : q.woken.length ≤ (q.woken.eraseIdx index).length + 1 := by
    rw [List.length_eraseIdx]
    split <;> omega
  split
  · apply served_wakeNext
    rcases h with h | h
    · exact Or.inl h
    · exact Or.inr (Nat.le_trans h hle)
  · next hno =>
    rcases h with h | h
    · exact Or.inl h
    · refine Or.inr ?_
      by_cases hitems : q.items = []
      · simp [leave, hitems]
      · have hnone : q.woken.length ≤ index := by
          by_contra hlt
          exact hno ⟨by simp [List.getElem?_eq_getElem (Nat.lt_of_not_le hlt)], hitems⟩
        simpa only [leave, List.eraseIdx_of_length_le hnone] using h

end AsyncQueue
end NetherNet.Library
