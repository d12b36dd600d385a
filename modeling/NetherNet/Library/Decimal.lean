import Mathlib.Algebra.Group.Nat.Defs
import Mathlib.Data.List.Basic

/-! Decimal numerals: the value of a run of ASCII digits, and the one run that is printed for a value. -/
namespace NetherNet.Library

/-- A non-empty run of ASCII digits with the value `n`. -/
def IsNumeral (token : List Char) (n : Nat) : Prop :=
  token ≠ [] ∧ (∀ c ∈ token, c.isDigit = true) ∧ Nat.ofDigitChars 10 token 0 = n

/-- No leading zero, but for zero itself. -/
def Canonical (digits : List Char) : Prop := digits.head? = some '0' → digits = ['0']

instance (digits : List Char) : Decidable (Canonical digits) := inferInstanceAs (Decidable (_ → _))

/-- A numeral after an optional minus sign. -/
def IsIntNumeral (token : List Char) (z : Int) : Prop :=
  ∃ digits n, IsNumeral digits n ∧ (token = digits ∧ z = n ∨ token = '-' :: digits ∧ z = -n)

/-- No leading zero after a minus sign, and else as without a sign. -/
def CanonicalInt (token : List Char) : Prop :=
  if token.head? = some '-' then token.tail.head? ≠ some '0' else Canonical token

instance (token : List Char) : Decidable (CanonicalInt token) := inferInstanceAs (Decidable (ite _ _ _))

theorem isNumeral_toDigits (n : Nat) : IsNumeral (Nat.toDigits 10 n) n :=
  ⟨Nat.toDigits_ne_nil, fun _ hc => Nat.isDigit_of_mem_toDigits (by decide) (by decide) hc, Nat.ofDigitChars_ten_toDigits⟩

/-- Only the numeral of zero is printed with the digit zero first. -/
private theorem head_toDigits (n : Nat) : (Nat.toDigits 10 n).head? = some '0' → n = 0 := by
  induction n using Nat.strongRecOn with
  | ind n ih =>
    rw [Nat.toDigits_eq_if (by decide)]
    split
    · intro h
      simpa using h
    · next hge =>
      rw [List.head?_append_of_ne_nil _ Nat.toDigits_ne_nil]
      intro h
      have hzero := ih (n / 10) (by omega) h
      omega

theorem canonical_toDigits (n : Nat) : Canonical (Nat.toDigits 10 n) := by
  intro h
  rw [head_toDigits n h, Nat.toDigits_zero]

private theorem digit_value {c : Char} (h : c.isDigit = true) : c.toNat - 48 < 10 ∧ Nat.digitChar (c.toNat - 48) = c := by
  obtain ⟨hlow, hhigh⟩ := Char.isDigit_iff_toNat.mp h
  simp only [Char.reduceToNat] at hlow hhigh
  have hlt : c.toNat - 48 < 10 := by omega
  refine ⟨hlt, Char.toNat_inj.mp ?_⟩
  rw [Nat.toNat_digitChar_of_lt_ten hlt]
  omega

/-- Digits after a number that is not zero are printed after it. -/
private theorem toDigits_append_digits {digits : List Char} (hd : ∀ c ∈ digits, c.isDigit = true) {front : Nat} (hf : 0 < front) :
    Nat.toDigits 10 (Nat.ofDigitChars 10 digits front) = Nat.toDigits 10 front ++ digits := by
  induction digits generalizing front with
  | nil => rw [Nat.ofDigitChars_nil, List.append_nil]
  | cons c digits ih =>
    obtain ⟨hlt, hc⟩ := digit_value (hd c List.mem_cons_self)
    rw [Nat.ofDigitChars_cons, show '0'.toNat = 48 from rfl, ih (fun c' h => hd c' (List.mem_cons_of_mem _ h)) (by omega),
      ← Nat.toDigits_append_toDigits (by decide) hf hlt, Nat.toDigits_of_lt_base hlt, hc, List.append_assoc, List.singleton_append]

/-- A numeral without a leading zero is what is printed for its value, and no other is. -/
theorem toDigits_eq_iff {digits : List Char} {n : Nat} (h : IsNumeral digits n) : Nat.toDigits 10 n = digits ↔ Canonical digits := by
  constructor
  · intro hprinted
    rw [← hprinted]
    exact canonical_toDigits n
  · intro hcanonical
    obtain ⟨hne, hd, rfl⟩ := h
    cases digits with
    | nil => exact absurd rfl hne
    | cons c rest =>
      obtain ⟨hlt, hc⟩ := digit_value (hd c List.mem_cons_self)
      rw [Nat.ofDigitChars_cons, show '0'.toNat = 48 from rfl, Nat.mul_zero, Nat.zero_add]
      by_cases hzero : c.toNat - 48 = 0
      · rw [hzero] at hc
        obtain rfl : '0' = c := hc
        obtain rfl : rest = [] := (List.cons.inj (hcanonical rfl)).2
        rfl
      · rw [toDigits_append_digits (fun c' h' => hd c' (List.mem_cons_of_mem _ h')) (by omega), Nat.toDigits_of_lt_base hlt, hc]
        rfl

private theorem ofDigitChars_lt {digits : List Char} (hd : ∀ c ∈ digits, c.isDigit = true) (front : Nat) :
    Nat.ofDigitChars 10 digits front < 10 ^ digits.length * (front + 1) := by
  induction digits generalizing front with
  | nil => simp
  | cons c digits ih =>
    have hlt := (digit_value (hd c List.mem_cons_self)).1
    have hrest := ih (fun c' h => hd c' (List.mem_cons_of_mem _ h)) (10 * front + (c.toNat - 48))
    rw [Nat.ofDigitChars_cons, show '0'.toNat = 48 from rfl, List.length_cons, Nat.pow_succ, Nat.mul_assoc]
    exact Nat.lt_of_lt_of_le hrest (Nat.mul_le_mul_left _ (by omega))

/-- What is printed for the value of a numeral is no longer than it. -/
theorem length_toDigits_le {digits : List Char} {n : Nat} (h : IsNumeral digits n) :
    (Nat.toDigits 10 n).length ≤ digits.length := by
  obtain ⟨hne, hd, rfl⟩ := h
  rw [Nat.length_toDigits_le_iff (by decide) (List.length_pos_of_ne_nil hne)]
  simpa using ofDigitChars_lt hd 0

/-- A numeral has no sign. -/
theorem IsNumeral.head_ne {digits : List Char} {n : Nat} (h : IsNumeral digits n) : digits.head? ≠ some '-' := by
  obtain ⟨_, hd, _⟩ := h
  cases digits with
  | nil => simp
  | cons c rest =>
    rintro hsign
    obtain rfl : c = '-' := Option.some.inj hsign
    exact absurd (hd '-' List.mem_cons_self) (by decide)

end NetherNet.Library
