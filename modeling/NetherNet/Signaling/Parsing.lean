import NetherNet.Protocol.Uuid
import NetherNet.Signaling.Messages

/-! The two parsers of a remote's text, and the texts on which `int` makes them raise. -/
namespace NetherNet
open Library

/-- More decimal digits than `int` converts. -/
def Overlong (token : Text) : Prop := isDecimal token = true ∧ maxStrDigits < token.length

instance (token : Text) : Decidable (Overlong token) := inferInstanceAs (Decidable (_ ∧ _))

namespace SignalingMessage

/-- No numeral that the message is read up to is overlong. -/
def ShortNumerals (text : Text) : Prop :=
  ∀ i token data, tokenize text = some (Identifier.text i, token, data) → ¬ Overlong token ∧
    ((∃ k, IsNumeral token k ∧ k ≤ u64Max) → i = .connectError → ¬ Overlong (unsigned data))

private theorem numeral_raises {digits : Text} {α : Type} (f : Nat → α) :
    (if digits = [] ∨ ¬ isDecimal digits = true then some none else (pyInt digits).map fun n => some (f n)) = none ↔ Overlong digits := by
  by_cases hnum : digits = [] ∨ ¬ isDecimal digits = true
  · rw [if_pos hnum]
    refine iff_of_false (by simp) ?_
    rintro ⟨hd, hlong⟩
    rcases hnum with rfl | hno
    · exact absurd hlong (by decide)
    · exact hno hd
  · rw [if_neg hnum, Option.map_eq_none_iff, pyInt]
    rw [not_or, not_not] at hnum
    split
    · next hshort => exact iff_of_false (by simp) fun h => absurd h.2 (Nat.not_lt.mpr hshort)
    · next hlong => exact iff_of_true rfl ⟨hnum.2, Nat.not_le.mp hlong⟩

theorem parseU64_eq_none {token : Text} : parseU64 token = none ↔ Overlong token := by
  rw [← numeral_raises fun n => n, parseU64]
  split
  · rfl
  · simp

theorem parseInt_eq_none {token : Text} : parseInt token = none ↔ Overlong (unsigned token) := by
  rw [parseInt_eq]
  exact numeral_raises _

private theorem parseU64_of_numeral {token : Text} {k : Nat} (hshort : ¬ Overlong token) (h : IsNumeral token k ∧ k ≤ u64Max) :
    parseU64 token = some (some k) := by
  obtain ⟨⟨hne, hd, hvalue⟩, hle⟩ := h
  have hdecimal : isDecimal token = true := List.all_eq_true.mpr hd
  have hlength : token.length ≤ maxStrDigits := Nat.not_lt.mp fun hlong => hshort ⟨hdecimal, hlong⟩
  rw [parseU64, if_neg (by simp [hne, hdecimal]), pyInt, if_pos hlength, hvalue, Option.map_some, if_pos hle]

/-- A message is parsed, or rejected, unless one of its numerals is overlong. -/
theorem parse_ne_none (text : Text) : parse text ≠ none ↔ ShortNumerals text := by
  unfold parse ShortNumerals
  cases ht : tokenize text with
  | none => simp
  | some tokens =>
    obtain ⟨identifier, token, data⟩ := tokens
    cases hi : byIdentifier identifier with
    | none =>
      refine iff_of_true (by simp [hi]) fun i token' data' h => ?_
      obtain ⟨rfl, _⟩ := Prod.mk.inj (Option.some.inj h)
      rw [byIdentifier_text] at hi
      cases hi
    | some cls =>
      obtain rfl := byIdentifier_iff.mp hi
      have htokens : (∀ i token' data', some (Identifier.text cls, token, data) = some (Identifier.text i, token', data') →
          ¬ Overlong token' ∧ ((∃ k, IsNumeral token' k ∧ k ≤ u64Max) → i = .connectError → ¬ Overlong (unsigned data'))) ↔
          ¬ Overlong token ∧ ((∃ k, IsNumeral token k ∧ k ≤ u64Max) → cls = .connectError → ¬ Overlong (unsigned data)) := by
        refine ⟨fun h => h cls token data rfl, fun h i token' data' heq => ?_⟩
        obtain ⟨hid, rfl, rfl⟩ : Identifier.text cls = Identifier.text i ∧ token = token' ∧ data = data' := by simpa using heq
        obtain rfl : cls = i := by
          rw [hid, byIdentifier_text] at hi
          exact (Option.some.inj hi).symm
        exact h
      rw [htokens]
      simp only [byIdentifier_text]
      cases hk : parseU64 token with
      | none => exact iff_of_false (by simp) fun h => h.1 (parseU64_eq_none.mp hk)
      | some k? =>
        have hshort : ¬ Overlong token := fun hlong => by
          rw [parseU64_eq_none.mpr hlong] at hk
          cases hk
        rw [and_iff_right hshort]
        cases k? with
        | none =>
          refine iff_of_true (by simp) ?_
          rintro ⟨k, hnum⟩
          rw [parseU64_of_numeral hshort hnum] at hk
          cases hk
        | some k =>
          have hnum := parseU64_some hk
          rw [imp_iff_right ⟨k, hnum⟩]
          cases cls with
          | connectError =>
            rw [imp_iff_right rfl, ← parseInt_eq_none]
            cases parseInt data with
            | none => simp
            | some error? => cases error? <;> simp
          | connectRequest => simp
          | connectResponse => simp
          | candidateAdd => simp

end SignalingMessage

namespace NetworkId

/-- An id is parsed, or unset, unless it is an overlong numeral. -/
theorem parse_ne_none (text : Text) : parse text ≠ none ↔ ¬ Overlong text := by
  unfold parse
  by_cases hnum : text ≠ [] ∧ isDecimal text = true
  · rw [if_pos hnum, ne_eq, Option.map_eq_none_iff, pyInt, Overlong]
    split
    · next hshort => simp [Nat.not_lt.mpr hshort]
    · next hlong => simp [hnum.2, Nat.not_le.mp hlong]
  · rw [if_neg hnum]
    refine iff_of_true (by simp) ?_
    rintro ⟨hd, hlong⟩
    refine hnum ⟨?_, hd⟩
    rintro rfl
    exact absurd hlong (by decide)

/-- What is neither a u64 numeral nor a UUID is unset. -/
theorem parse_eq_unset {text : Text} {id : NetworkId} (h : parse text = some id) (hnum : ¬ ∃ n, IsNumeral text n ∧ n ≤ u64Max)
    (huuid : parseUuid text = none) : id = .unset := by
  have hother : parseOther text = .unset := by rw [parseOther, huuid]
  unfold parse at h
  split at h
  · next hdigits =>
    obtain ⟨value, hvalue, rfl⟩ := Option.map_eq_some_iff.mp h
    rw [if_neg, hother]
    intro hle
    refine hnum ⟨value, ⟨hdigits.1, List.all_eq_true.mp hdigits.2, ?_⟩, hle⟩
    unfold pyInt at hvalue
    split at hvalue
    · exact Option.some.inj hvalue
    · cases hvalue
  · rw [← Option.some.inj h, hother]

end NetworkId

/-- Both parsers return, and reject what is no message and what is no id. -/
structure Returns (text : Text) : Prop where
  message : ∃ m, SignalingMessage.parse text = some m ∧ ((∀ m', ¬ SignalingMessage.Spells text m') → m = none)
  networkId : ∃ id, NetworkId.parse text = some id ∧
    ((¬ ∃ n, IsNumeral text n ∧ n ≤ u64Max) → parseUuid text = none → id = .unset)

/-- The parsers return exactly on the texts that hand no overlong numeral to `int`. -/
theorem returns_iff (text : Text) : Returns text ↔ SignalingMessage.ShortNumerals text ∧ ¬ Overlong text := by
  rw [← SignalingMessage.parse_ne_none, ← NetworkId.parse_ne_none]
  constructor
  · rintro ⟨⟨m, hm, _⟩, id, hid, _⟩
    rw [hm, hid]
    exact ⟨Option.some_ne_none m, Option.some_ne_none id⟩
  · rintro ⟨hmessage, hid⟩
    obtain ⟨m, hm⟩ := Option.ne_none_iff_exists'.mp hmessage
    obtain ⟨id, hid⟩ := Option.ne_none_iff_exists'.mp hid
    refine ⟨⟨m, hm, fun hno => ?_⟩, id, hid, NetworkId.parse_eq_unset hid⟩
    cases m with
    | none => rfl
    | some m =>
      obtain ⟨token, data, htokens, hnum, hle, hreads⟩ := SignalingMessage.tokens_of_parse hm
      exact absurd ⟨token, data, (SignalingMessage.tokenize_iff.mp htokens).1, hnum, hle, hreads⟩ (hno m)

/-- A network id of 4301 zeros. -/
theorem overlong_id_raises : ¬ ∀ text, Returns text := by
  intro h
  refine ((returns_iff _).mp (h (List.replicate 4301 '0'))).2 ⟨?_, ?_⟩
  · rw [isDecimal, List.all_replicate]
    rfl
  · rw [List.length_replicate]
    decide

end NetherNet
