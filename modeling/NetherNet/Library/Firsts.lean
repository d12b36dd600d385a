import Mathlib.Data.List.Nodup

/-! The first element of each key in a list that grows. -/
namespace NetherNet.Library
variable {α κ : Type} [DecidableEq κ]

/-- `firsts` are the elements of `all` whose key none before them has, in order. -/
structure Firsts (key : α → κ) (all firsts : List α) : Prop where
  sublist : firsts.Sublist all
  nodup : (firsts.map key).Nodup
  first : ∀ k, firsts.find? (fun a => key a = k) = all.find? fun a => key a = k

namespace Firsts
variable {key : α → κ} {all firsts : List α}

theorem nil : Firsts key [] [] := ⟨List.Sublist.refl [], List.nodup_nil, fun _ => rfl⟩

/-- An element whose key there was before is none of them. -/
theorem repeated (h : Firsts key all firsts) {a : α} (ha : key a ∈ firsts.map key) : Firsts key (all ++ [a]) firsts := by
  refine ⟨h.sublist.trans (List.sublist_append_left all [a]), h.nodup, fun k => ?_⟩
  rw [List.find?_append, ← h.first k]
  by_cases hk : key a = k
  · obtain ⟨b, hb, hkey⟩ := List.mem_map.mp (hk ▸ ha)
    have hsome : (firsts.find? fun a => key a = k).isSome = true := by
      rw [List.find?_isSome]
      exact ⟨b, hb, decide_eq_true hkey⟩
    rw [Option.or_of_isSome hsome]
  · rw [List.find?_singleton, decide_eq_false hk, if_neg Bool.false_ne_true, Option.or_none]

/-- An element with a new key is one. -/
theorem fresh (h : Firsts key all firsts) {a : α} (ha : key a ∉ firsts.map key) : Firsts key (all ++ [a]) (firsts ++ [a]) := by
  refine ⟨h.sublist.append (List.Sublist.refl [a]), ?_, fun k => ?_⟩
  · rw [List.map_append, List.map_singleton, ← List.concat_eq_append]
    exact h.nodup.concat ha
  · rw [List.find?_append, List.find?_append, h.first k]

end Firsts
end NetherNet.Library
