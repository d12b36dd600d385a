import Mathlib.Algebra.GroupWithZero.Nat
import Mathlib.Data.List.Basic
import Mathlib.Data.List.Nodup

/-! A dictionary in insertion order: assigning to a present key keeps its place,
a new key goes last, and every key occurs once. -/
namespace NetherNet.Library

/-- The value of the first entry under a key. -/
def lookup {κ υ : Type} [DecidableEq κ] (k : κ) : List (κ × υ) → Option υ
  | [] => none
  | e :: rest => if e.1 = k then some e.2 else lookup k rest

/-- Replace the entry under a key, or append one. -/
def assign {κ υ : Type} [DecidableEq κ] (k : κ) (v : υ) : List (κ × υ) → List (κ × υ)
  | [] => [(k, v)]
  | e :: rest => if e.1 = k then (k, v) :: rest else e :: assign k v rest

section Entries
variable {κ υ : Type} [DecidableEq κ]

private theorem mem_keys_assign (k j : κ) (v : υ) (es : List (κ × υ)) :
    j ∈ (assign k v es).map Prod.fst ↔ j = k ∨ j ∈ es.map Prod.fst := by
  induction es with
  | nil => simp [assign]
  | cons e es ih =>
    by_cases he : e.1 = k
    · simp [assign, he]
    · simp only [assign, he, if_false, List.map_cons, List.mem_cons, ih]
      tauto

private theorem nodup_assign (k : κ) (v : υ) (es : List (κ × υ)) (h : (es.map Prod.fst).Nodup) :
    ((assign k v es).map Prod.fst).Nodup := by
  induction es with
  | nil => simp [assign]
  | cons e es ih =>
    simp only [List.map_cons, List.nodup_cons] at h
    by_cases he : e.1 = k
    · simpa [assign, he] using (⟨he ▸ h.1, h.2⟩ : k ∉ es.map Prod.fst ∧ (es.map Prod.fst).Nodup)
    · rw [assign, if_neg he, List.map_cons, List.nodup_cons, mem_keys_assign, not_or]
      exact ⟨⟨he, h.1⟩, ih h.2⟩

private theorem lookup_assign (k j : κ) (v : υ) (es : List (κ × υ)) :
    lookup j (assign k v es) = if j = k then some v else lookup j es := by
  induction es with
  | nil => simp [assign, lookup, eq_comm]
  | cons e es ih =>
    by_cases he : e.1 = k
    · by_cases hj : j = k
      · simp [assign, lookup, he, hj]
      · have hk : ¬ k = j := fun h => hj h.symm
        simp [assign, lookup, he, hj, hk]
    · by_cases hj : e.1 = j
      · have hk : ¬ j = k := fun h => he (hj.trans h)
        simp [assign, lookup, hj, hk]
      · simp [assign, lookup, he, hj, ih]

theorem mem_assign {k : κ} {v : υ} {es : List (κ × υ)} {e : κ × υ} (h : e ∈ assign k v es) : e = (k, v) ∨ e ∈ es := by
  induction es with
  | nil => exact .inl (by simpa [assign] using h)
  | cons first es ih =>
    rw [assign] at h
    split at h
    · obtain rfl | h := List.mem_cons.mp h
      · exact .inl rfl
      · exact .inr (List.mem_cons_of_mem _ h)
    · obtain rfl | h := List.mem_cons.mp h
      · exact .inr List.mem_cons_self
      · exact (ih h).imp_right (List.mem_cons_of_mem _)

theorem mem_of_lookup {k : κ} {v : υ} {es : List (κ × υ)} (h : lookup k es = some v) : (k, v) ∈ es := by
  induction es with
  | nil => exact absurd h (by simp [lookup])
  | cons e es ih =>
    rw [lookup] at h
    split at h
    · next he =>
      rw [← he, ← Option.some.inj h]
      exact List.mem_cons_self
    · exact List.mem_cons_of_mem _ (ih h)

private theorem lookup_eq_none {k : κ} {es : List (κ × υ)} (h : k ∉ es.map Prod.fst) : lookup k es = none := by
  induction es with
  | nil => rfl
  | cons e es ih =>
    rw [List.map_cons, List.mem_cons, not_or] at h
    rw [lookup, if_neg fun he => h.1 he.symm, ih h.2]

private theorem lookup_filter (k j : κ) (es : List (κ × υ)) :
    lookup j (es.filter (fun e => e.1 ≠ k)) = if j = k then none else lookup j es := by
  induction es with
  | nil => simp [lookup]
  | cons e es ih =>
    by_cases he : e.1 = k
    · by_cases hj : j = k
      · simpa [he, hj] using ih
      · have hk : ¬ k = j := fun h => hj h.symm
        simpa [he, lookup, hj, hk] using ih
    · by_cases hj : e.1 = j
      · have hk : ¬ j = k := fun h => he (hj.trans h)
        simp [lookup, hj, hk]
      · simpa [he, lookup, hj] using ih

private theorem mem_iff_lookup (k : κ) (v : υ) (es : List (κ × υ)) (h : (es.map Prod.fst).Nodup) :
    (k, v) ∈ es ↔ lookup k es = some v := by
  induction es with
  | nil => simp [lookup]
  | cons e es ih =>
    obtain ⟨a, b⟩ := e
    simp only [List.map_cons, List.nodup_cons] at h
    by_cases ha : a = k
    · subst ha
      have hno : (a, v) ∉ es := fun hm => h.1 (List.mem_map.mpr ⟨(a, v), hm, rfl⟩)
      simp [lookup, hno, eq_comm]
    · have hne : ¬ k = a := fun hk => ha hk.symm
      simp [lookup, ha, hne, ih h.2]

theorem sum_assign (k : κ) (v : υ) (es : List (κ × υ)) (f : υ → Nat) :
    ((assign k v es).map fun e => f e.2).sum + (lookup k es).elim 0 f = (es.map fun e => f e.2).sum + f v := by
  induction es with
  | nil => simp [assign, lookup]
  | cons e es ih =>
    by_cases he : e.1 = k
    · simp only [assign, lookup, he, if_true, List.map_cons, List.sum_cons, Option.elim_some]
      omega
    · simp only [assign, lookup, he, if_false, List.map_cons, List.sum_cons]
      omega
end Entries

structure Dict (κ υ : Type) where
  entries : List (κ × υ)
  nodup : (entries.map Prod.fst).Nodup

namespace Dict
variable {κ υ : Type} [DecidableEq κ]

def empty : Dict κ υ := ⟨[], List.nodup_nil⟩

def get? (d : Dict κ υ) (k : κ) : Option υ := lookup k d.entries

/-- `d[k] = v`. -/
def set (d : Dict κ υ) (k : κ) (v : υ) : Dict κ υ := ⟨assign k v d.entries, nodup_assign k v _ d.nodup⟩

/-- `d.pop(k, None)`, without the value it returns. -/
def pop (d : Dict κ υ) (k : κ) : Dict κ υ :=
  ⟨d.entries.filter (fun e => e.1 ≠ k), d.nodup.sublist (List.filter_sublist.map _)⟩

def values (d : Dict κ υ) : List υ := d.entries.map Prod.snd

@[simp] theorem get?_empty (k : κ) : (empty : Dict κ υ).get? k = none := rfl

theorem get?_set (d : Dict κ υ) (k j : κ) (v : υ) :
    (d.set k v).get? j = if j = k then some v else d.get? j := lookup_assign k j v d.entries
@[simp] theorem get?_set_self (d : Dict κ υ) (k : κ) (v : υ) : (d.set k v).get? k = some v := by
  simp [get?_set]
theorem get?_set_ne (d : Dict κ υ) {k j : κ} (v : υ) (h : j ≠ k) : (d.set k v).get? j = d.get? j := by
  simp [get?_set, h]

theorem get?_pop (d : Dict κ υ) (k j : κ) : (d.pop k).get? j = if j = k then none else d.get? j :=
  lookup_filter k j d.entries
@[simp] theorem get?_pop_self (d : Dict κ υ) (k : κ) : (d.pop k).get? k = none := by
  simp [get?_pop]
theorem get?_pop_ne (d : Dict κ υ) {k j : κ} (h : j ≠ k) : (d.pop k).get? j = d.get? j := by
  simp [get?_pop, h]

/-- What a popped dictionary still holds, it held before. -/
theorem get?_of_pop (d : Dict κ υ) {k j : κ} {v : υ} (h : (d.pop k).get? j = some v) :
    j ≠ k ∧ d.get? j = some v := by
  rw [get?_pop] at h
  split at h
  · cases h
  · exact ⟨‹_›, h⟩

theorem mem_values_iff (d : Dict κ υ) (v : υ) : v ∈ d.values ↔ ∃ k, d.get? k = some v := by
  simp only [values, List.mem_map, Prod.exists, exists_eq_right, get?, mem_iff_lookup _ _ _ d.nodup]

/-- What an assignment adds to a sum over the values. -/
theorem sum_values_set (d : Dict κ υ) (k : κ) (v : υ) (f : υ → Nat) :
    ((d.set k v).values.map f).sum + (d.get? k).elim 0 f = (d.values.map f).sum + f v := by
  have hsum := sum_assign k v d.entries f
  simpa only [values, List.map_map, set, get?, Function.comp_def] using hsum

/-- `d.update(other)`: what the other dictionary holds stands over what was there. -/
theorem get?_update (other d : Dict κ υ) (k : κ) :
    (other.entries.foldl (fun d e => d.set e.1 e.2) d).get? k = (other.get? k).or (d.get? k) := by
  obtain ⟨es, hes⟩ := other
  simp only [get?]
  induction es generalizing d with
  | nil => rfl
  | cons e es ih =>
    rw [List.map_cons, List.nodup_cons] at hes
    rw [List.foldl_cons, ih _ hes.2, lookup]
    by_cases he : e.1 = k
    · rw [lookup_eq_none (he ▸ hes.1), if_pos he]
      simp [set, lookup_assign, he]
    · have hk : ¬ k = e.1 := fun h => he h.symm
      rw [if_neg he]
      simp [set, lookup_assign, hk]

/-- After assignments one by one a key has what was assigned to it last. -/
theorem get?_assigned (entries : List (κ × υ)) (d : Dict κ υ) (k : κ) :
    (entries.foldl (fun d e => d.set e.1 e.2) d).get? k =
      ((entries.reverse.find? fun e => e.1 = k).map Prod.snd).or (d.get? k) := by
  induction entries generalizing d with
  | nil => rfl
  | cons e rest ih =>
    rw [List.foldl_cons, ih, List.reverse_cons, List.find?_append, Option.map_or, Option.or_assoc, get?_set]
    congr 1
    by_cases he : e.1 = k
    · rw [if_pos he.symm, List.find?_cons_of_pos (by simpa using he)]
      rfl
    · rw [if_neg fun h => he h.symm, List.find?_cons_of_neg (by simpa using he)]
      rfl

/-- Every entry of an updated dictionary comes from one of the two. -/
theorem mem_update {other : List (κ × υ)} {d : Dict κ υ} {e : κ × υ} (h : e ∈ (other.foldl (fun d e => d.set e.1 e.2) d).entries) :
    e ∈ other ∨ e ∈ d.entries := by
  induction other generalizing d with
  | nil => exact .inr h
  | cons first other ih =>
    obtain h | h := ih h
    · exact .inl (List.mem_cons_of_mem _ h)
    · obtain rfl | h := mem_assign h
      · exact .inl List.mem_cons_self
      · exact .inr h

end Dict
end NetherNet.Library
