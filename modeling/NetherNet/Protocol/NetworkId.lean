import NetherNet.Protocol.Errors

/-! Peer identities and the texts they are read from. -/
namespace NetherNet

/-- A Python text. Lone surrogates never occur: every text here was decoded from
UTF-8 or produced by the library itself. -/
abbrev Text := List Char

/-- A byte string. -/
abbrev Bytes := List UInt8

def u64Max : Nat := 0xFFFFFFFFFFFFFFFF

/-- CPython refuses to convert a longer run of decimal digits. -/
def maxStrDigits : Nat := 4300

/-- `int(token)` on a run of ASCII digits, or nothing where it raises ValueError. -/
def pyInt (digits : Text) : Option Nat :=
  if digits.length ≤ maxStrDigits then some (Nat.ofDigitChars 10 digits 0) else none

/-- `all(c in "0123456789" for c in token)`. -/
def isDecimal (token : Text) : Bool := token.all Char.isDigit

/-- `str(n)` of a non-negative int. -/
def decimal (n : Nat) : Text := Nat.toDigits 10 n

theorem isDecimal_decimal (n : Nat) : isDecimal (decimal n) = true := by
  rw [isDecimal, List.all_eq_true]
  intro c hc
  exact Nat.isDigit_of_mem_toDigits (by decide) (by decide) hc

theorem decimal_ne_nil (n : Nat) : decimal n ≠ [] := Nat.toDigits_ne_nil

theorem pyInt_decimal {n : Nat} (h : (decimal n).length ≤ maxStrDigits) : pyInt (decimal n) = some n := by
  rw [pyInt, if_pos h, decimal, Nat.ofDigitChars_ten_toDigits]

/-- Every u64 is short enough for `int`. -/
theorem decimal_length_of_u64 {n : Nat} (h : n ≤ u64Max) : (decimal n).length ≤ maxStrDigits := by
  have hs : (Nat.toDigits 10 n).length ≤ 20 := by
    rw [Nat.length_toDigits_le_iff (by decide) (by decide)]
    exact Nat.lt_of_le_of_lt h (by decide)
  exact Nat.le_trans hs (by decide)

theorem space_notMem_decimal (n : Nat) : ' ' ∉ decimal n := by
  intro h
  have := Nat.isDigit_of_mem_toDigits (b := 10) (by decide) (by decide) h
  revert this
  decide

/-- `NetworkID`: a P2P number, a Realms UUID by its 128-bit value, or unset. -/
inductive NetworkId where
  | unset
  | p2p (value : Nat)
  | realms (uuid : Nat)
  deriving DecidableEq, Repr

namespace NetworkId

/-- The `value` field, which is 0 for the other forms. -/
def value : NetworkId → Nat
  | p2p v => v
  | _ => 0

end NetworkId
end NetherNet
