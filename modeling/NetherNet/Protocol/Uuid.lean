import Mathlib.Algebra.Group.Int.Defs
import NetherNet.Transport.Sdp

/-! Network ids as texts: what `int(text, 16)` and `uuid.UUID` accept, and `NetworkID.parse`. -/
namespace NetherNet

/-- The value of a decimal digit of Unicode. -/
def unicodeDigit? (c : Char) : Option Nat :=
  (Sdp.digitBlocks.find? fun d => d ≤ c.toNat ∧ c.toNat < d + 10).map (c.toNat - ·)

/-- A character as `int` reads it: any space as one, any decimal digit as ASCII's. -/
def asciiNumeral (c : Char) : Char :=
  if c.toNat < 127 then c
  else if Sdp.isSpace c then ' '
  else
    match unicodeDigit? c with
    | some d => Nat.digitChar d
    | none => '?'

/-- The space that C knows. -/
def isAsciiSpace (c : Char) : Bool := (9 ≤ c.toNat ∧ c.toNat ≤ 13) ∨ c.toNat = 32

def hexValue? (c : Char) : Option Nat :=
  if '0' ≤ c ∧ c ≤ '9' then some (c.toNat - '0'.toNat)
  else if 'a' ≤ c ∧ c ≤ 'f' then some (c.toNat - 'a'.toNat + 10)
  else if 'A' ≤ c ∧ c ≤ 'F' then some (c.toNat - 'A'.toNat + 10)
  else none

/-- Hexadecimal digits, with single underscores between them; `fresh` where a digit must come next. -/
def readHex (value : Nat) (fresh : Bool) : Text → Option Nat
  | [] => if fresh then none else some value
  | c :: rest =>
    if c = '_' then if fresh then none else readHex value true rest
    else
      match hexValue? c with
      | none => none
      | some d => readHex (16 * value + d) false rest

/-- What comes after a prefix `0x`, and after an underscore behind it. -/
def dropHexPrefix : Text → Text
  | '0' :: 'x' :: '_' :: rest | '0' :: 'X' :: '_' :: rest => rest
  | '0' :: 'x' :: rest | '0' :: 'X' :: rest => rest
  | text => text

/-- `int(text, 16)`, or nothing where it raises ValueError. -/
def pyIntHex (text : Text) : Option Int :=
  match (((text.map asciiNumeral).dropWhile isAsciiSpace).reverse.dropWhile isAsciiSpace).reverse with
  | '-' :: rest => (readHex 0 true (dropHexPrefix rest)).map fun n => -(n : Int)
  | '+' :: rest => (readHex 0 true (dropHexPrefix rest)).map Int.ofNat
  | rest => (readHex 0 true (dropHexPrefix rest)).map Int.ofNat

/-- `text.replace(old, "")`: `skip` counts the characters of an occurrence still to pass over. -/
def removeAll (old : Text) : (skip : Nat) → Text → Text
  | _, [] => []
  | skip + 1, _ :: rest => removeAll old skip rest
  | 0, c :: rest => if old.isPrefixOf (c :: rest) then removeAll old (old.length - 1) rest else c :: removeAll old 0 rest

/-- `uuid.UUID(text)` by its value, or nothing where it raises ValueError. -/
def parseUuid (text : Text) : Option Nat :=
  let isBrace : Char → Bool := fun c => c = '{' ∨ c = '}'
  let hex := removeAll "uuid:".toList 0 (removeAll "urn:".toList 0 text)
  let hex := removeAll ['-'] 0 (((hex.dropWhile isBrace).reverse.dropWhile isBrace).reverse)
  if hex.length ≠ 32 then none
  else (pyIntHex hex).bind fun value => if 0 ≤ value ∧ value < 2 ^ 128 then some value.toNat else none

namespace NetworkId

/-- The UUID of a text, or unset. -/
def parseOther (text : Text) : NetworkId :=
  match parseUuid text with
  | some uuid => .realms uuid
  | none => .unset

/-- `NetworkID.parse`, or nothing where it raises ValueError. -/
def parse (text : Text) : Option NetworkId :=
  if text ≠ [] ∧ isDecimal text then (pyInt text).map fun value => if value ≤ u64Max then .p2p value else parseOther text
  else some (parseOther text)

end NetworkId
end NetherNet
