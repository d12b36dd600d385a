import NetherNet.Library.Dict
import NetherNet.Library.Unicode

/-! JSON as the `json` module reads and writes it: any value, duplicate keys, lone
surrogates and the constants for non-finite floats included. -/
namespace NetherNet.Library

/-- A float, over the type of the finite ones. -/
inductive Double (F : Type) where
  | nan
  | infinity (negative : Bool)
  | finite (x : F)
  deriving DecidableEq

/-- What the interpreter does with floats, and the characters that `repr` prints as they are. -/
class Runtime (F : Type) where
  ofText : Str → Double F
  repr : F → Str
  lt : F → F → Bool
  ltInt : Int → F → Bool
  trunc : F → Int
  isPrintable : CodePoint → Bool

/-- A value of the `json` module; the members of an object are a dictionary in insertion order. -/
inductive Json (F : Type) where
  | null
  | bool (b : Bool)
  | int (n : Int)
  | float (x : Double F)
  | text (s : Str)
  | array (items : List (Json F))
  | object (members : List (Str × Json F))

namespace Json

def quote : CodePoint := 0x22
def backslash : CodePoint := 0x5C
def comma : CodePoint := 0x2C
def colon : CodePoint := 0x3A
def minus : CodePoint := 0x2D
def point : CodePoint := 0x2E
def openBracket : CodePoint := 0x5B
def closeBracket : CodePoint := 0x5D
def openBrace : CodePoint := 0x7B
def closeBrace : CodePoint := 0x7D
def letterU : CodePoint := 0x75

/-- CPython converts no int of more digits to or from a text. -/
def maxDigits : Nat := 4300

/-! ### Writing -/

def hexDigit (n : Nat) : CodePoint := if n < 10 then CodePoint.ofNat (0x30 + n) else CodePoint.ofNat (0x61 + (n - 10))

/-- `\uXXXX`. -/
def unicodeEscape (n : Nat) : Str :=
  [backslash, letterU, hexDigit (n / 0x1000 % 0x10), hexDigit (n / 0x100 % 0x10), hexDigit (n / 0x10 % 0x10), hexDigit (n % 0x10)]

/-- The letter of a two-character escape. -/
def shortEscape? (c : CodePoint) : Option CodePoint :=
  if c = quote then some quote
  else if c = backslash then some backslash
  else if c = 0x0A then some 0x6E
  else if c = 0x0D then some 0x72
  else if c = 0x09 then some 0x74
  else if c = 0x0C then some 0x66
  else if c = 0x08 then some 0x62
  else none

/-- One character of a string literal, with `ensure_ascii` or without. -/
def escape (ascii : Bool) (c : CodePoint) : Str :=
  match shortEscape? c with
  | some e => [backslash, e]
  | none =>
    if c.val < 0x20 ∨ (ascii ∧ 0x7F ≤ c.val) then
      if c.val < 0x10000 then unicodeEscape c.val
      else unicodeEscape (0xD800 + (c.val - 0x10000) / 0x400) ++ unicodeEscape (0xDC00 + (c.val - 0x10000) % 0x400)
    else [c]

def literal (ascii : Bool) (s : Str) : Str := quote :: (s.flatMap (escape ascii) ++ [quote])

/-- `int.__repr__`. -/
def intRepr (n : Int) : Str :=
  (if n < 0 then [minus] else []) ++ (Nat.toDigits 10 n.natAbs).map CodePoint.ofChar

variable {F : Type} [Runtime F]

def floatText : Double F → Str
  | .nan => str "NaN"
  | .infinity false => str "Infinity"
  | .infinity true => str "-Infinity"
  | .finite x => Runtime.repr x

mutual
/-- `json.dumps` with the separators `,` and `:`. -/
def dumps (ascii : Bool) : Json F → Str
  | .null => str "null"
  | .bool true => str "true"
  | .bool false => str "false"
  | .int n => intRepr n
  | .float x => floatText x
  | .text s => literal ascii s
  | .array items => openBracket :: dumpsItems ascii items
  | .object members => openBrace :: dumpsMembers ascii members

def dumpsItems (ascii : Bool) : List (Json F) → Str
  | [] => [closeBracket]
  | v :: items => dumps ascii v ++ dumpsMoreItems ascii items

def dumpsMoreItems (ascii : Bool) : List (Json F) → Str
  | [] => [closeBracket]
  | v :: items => comma :: (dumps ascii v ++ dumpsMoreItems ascii items)

def dumpsMembers (ascii : Bool) : List (Str × Json F) → Str
  | [] => [closeBrace]
  | (k, v) :: members => literal ascii k ++ colon :: (dumps ascii v ++ dumpsMoreMembers ascii members)

def dumpsMoreMembers (ascii : Bool) : List (Str × Json F) → Str
  | [] => [closeBrace]
  | (k, v) :: members => comma :: (literal ascii k ++ colon :: (dumps ascii v ++ dumpsMoreMembers ascii members))
end

mutual
/-- No int is too long to be printed. -/
def printable : Json F → Bool
  | .int n => (Nat.toDigits 10 n.natAbs).length ≤ maxDigits
  | .array items => printableItems items
  | .object members => printableMembers members
  | _ => true

def printableItems : List (Json F) → Bool
  | [] => true
  | v :: items => printable v && printableItems items

def printableMembers : List (Str × Json F) → Bool
  | [] => true
  | (_, v) :: members => printable v && printableMembers members
end

/-- The order of strings, by code points. -/
def textLe : Str → Str → Bool
  | [], _ => true
  | _ :: _, [] => false
  | c :: s, d :: t => if c < d then true else if d < c then false else textLe s t

def insertMember {υ : Type} (k : Str) (v : υ) : List (Str × υ) → List (Str × υ)
  | [] => [(k, v)]
  | (j, w) :: rest => if textLe k j then (k, v) :: (j, w) :: rest else (j, w) :: insertMember k v rest

mutual
/-- Every dictionary in the order of its keys. -/
def sortKeys : Json F → Json F
  | .array items => .array (sortItems items)
  | .object members => .object (sortMembers members)
  | v => v

def sortItems : List (Json F) → List (Json F)
  | [] => []
  | v :: items => sortKeys v :: sortItems items

def sortMembers : List (Str × Json F) → List (Str × Json F)
  | [] => []
  | (k, v) :: members => insertMember k (sortKeys v) (sortMembers members)
end

/-! ### Reading -/

def isBlank (c : CodePoint) : Bool := c.val = 0x20 ∨ c.val = 0x09 ∨ c.val = 0x0A ∨ c.val = 0x0D

def skipBlanks (s : Str) : Str := s.dropWhile isBlank

def hexValue? (c : CodePoint) : Option Nat :=
  let n := c.val
  if 0x30 ≤ n ∧ n ≤ 0x39 then some (n - 0x30)
  else if 0x61 ≤ n ∧ n ≤ 0x66 then some (n - 0x61 + 10)
  else if 0x41 ≤ n ∧ n ≤ 0x46 then some (n - 0x41 + 10)
  else none

/-- Four hexadecimal digits. -/
def scanHex : Str → Option (CodePoint × Str)
  | a :: b :: c :: d :: rest => do
    let w ← hexValue? a
    let x ← hexValue? b
    let y ← hexValue? c
    let z ← hexValue? d
    some (CodePoint.ofNat (w * 0x1000 + x * 0x100 + y * 0x10 + z), rest)
  | _ => none

/-- What follows `\u`: a surrogate pair is one character, a lone surrogate stays. -/
def scanUnicode (s : Str) : Option (CodePoint × Str) :=
  match scanHex s with
  | none => none
  | some (high, rest) =>
    match rest with
    | b :: u :: after =>
      if high.isHigh ∧ b = backslash ∧ u = letterU then
        match scanHex after with
        | none => none
        | some (low, after) => if low.isLow then some (CodePoint.join high low, after) else some (high, rest)
      else some (high, rest)
    | _ => some (high, rest)

def unescape? (e : CodePoint) : Option CodePoint :=
  if e = quote then some quote
  else if e = backslash then some backslash
  else if e = 0x2F then some 0x2F
  else if e = 0x62 then some 0x08
  else if e = 0x66 then some 0x0C
  else if e = 0x6E then some 0x0A
  else if e = 0x72 then some 0x0D
  else if e = 0x74 then some 0x09
  else none

/-- One character of a string literal, or its closing quote. -/
def scanChar : Str → Option (Option CodePoint × Str)
  | [] => none
  | c :: rest =>
    if c = quote then some (none, rest)
    else if c = backslash then
      match rest with
      | [] => none
      | e :: rest =>
        if e = letterU then (scanUnicode rest).map fun p => (some p.1, p.2)
        else (unescape? e).map fun d => (some d, rest)
    else if c.val < 0x20 then none
    else some (some c, rest)

/-- A string literal after its opening quote; every character read shortens the text, so the
length of the text is fuel enough. -/
def scanLiteral : (fuel : Nat) → Str → Option (Str × Str)
  | 0, _ => none
  | fuel + 1, s =>
    match scanChar s with
    | none => none
    | some (none, rest) => some ([], rest)
    | some (some c, rest) => (scanLiteral fuel rest).map fun p => (c :: p.1, p.2)

def isDigit (c : CodePoint) : Bool := 0x30 ≤ c.val ∧ c.val ≤ 0x39

def digitsValue (digits : Str) : Nat := digits.foldl (fun n c => 10 * n + (c.val - 0x30)) 0

def scanFraction : Str → Str
  | [] => []
  | c :: rest => if c = point ∧ rest.takeWhile isDigit ≠ [] then c :: rest.takeWhile isDigit else []

def scanSign : Str → Str
  | [] => []
  | c :: _ => if c = 0x2B ∨ c = minus then [c] else []

def scanExponent : Str → Str
  | [] => []
  | c :: rest =>
    let digits := (rest.drop (scanSign rest).length).takeWhile isDigit
    if (c = 0x65 ∨ c = 0x45) ∧ digits ≠ [] then c :: (scanSign rest ++ digits) else []

/-- A number: an int of at most `maxDigits` digits, or a float if it has a fraction or an exponent. -/
def scanNumber (s : Str) : Option (Json F × Str) :=
  let sign := if s.head? = some minus then [minus] else []
  let body := s.drop sign.length
  match body with
  | [] => none
  | d :: _ =>
    if isDigit d then
      let whole := if d = 0x30 then [d] else body.takeWhile isDigit
      let rest := body.drop whole.length
      let fraction := scanFraction rest
      let exponent := scanExponent (rest.drop fraction.length)
      if fraction = [] ∧ exponent = [] then
        if maxDigits < whole.length then none
        else some (.int (if sign = [] then digitsValue whole else -digitsValue whole), rest)
      else
        some (.float (Runtime.ofText (sign ++ whole ++ fraction ++ exponent)), (rest.drop fraction.length).drop exponent.length)
    else none

/-- The constants, and the value of each. -/
def constants : List (Str × Json F) :=
  [(str "null", .null), (str "true", .bool true), (str "false", .bool false), (str "NaN", .float .nan),
    (str "Infinity", .float (.infinity false)), (str "-Infinity", .float (.infinity true))]

def scanScalar (s : Str) : Option (Json F × Str) :=
  match constants.find? fun e => e.1.isPrefixOf s with
  | some (name, v) => some (v, s.drop name.length)
  | none => scanNumber s

mutual
/-- A value at the head of a text. Every call has read a character since the one before it, so
the length of the text is fuel enough. -/
def scanValue : (fuel : Nat) → Str → Option (Json F × Str)
  | 0, _ => none
  | _ + 1, [] => none
  | fuel + 1, c :: rest =>
    if c = quote then (scanLiteral (rest.length + 1) rest).map fun p => (.text p.1, p.2)
    else if c = openBrace then
      (if (skipBlanks rest).head? = some closeBrace then some ([], (skipBlanks rest).tail)
        else scanMembers fuel (skipBlanks rest)).map
        fun p => (.object (p.1.foldl (fun d e => assign e.1 e.2 d) []), p.2)
    else if c = openBracket then
      (if (skipBlanks rest).head? = some closeBracket then some ([], (skipBlanks rest).tail)
        else scanItems fuel (skipBlanks rest)).map
        fun p => (.array p.1, p.2)
    else scanScalar (c :: rest)

def scanItems : (fuel : Nat) → Str → Option (List (Json F) × Str)
  | 0, _ => none
  | fuel + 1, s =>
    match scanValue fuel s with
    | none => none
    | some (v, rest) =>
      match skipBlanks rest with
      | [] => none
      | c :: rest =>
        if c = closeBracket then some ([v], rest)
        else if c = comma then (scanItems fuel (skipBlanks rest)).map fun p => (v :: p.1, p.2)
        else none

def scanMembers : (fuel : Nat) → Str → Option (List (Str × Json F) × Str)
  | 0, _ => none
  | _ + 1, [] => none
  | fuel + 1, q :: s =>
    if q = quote then
      match scanLiteral (s.length + 1) s with
      | none => none
      | some (k, rest) =>
        match skipBlanks rest with
        | [] => none
        | c :: rest =>
          if c = colon then
            match scanValue fuel (skipBlanks rest) with
            | none => none
            | some (v, rest) =>
              match skipBlanks rest with
              | [] => none
              | c :: rest =>
                if c = closeBrace then some ([(k, v)], rest)
                else if c = comma then (scanMembers fuel (skipBlanks rest)).map fun p => ((k, v) :: p.1, p.2)
                else none
          else none
    else none
end

/-- `json.loads` of a `str`; `none` is a `ValueError`. -/
def loads (s : Str) : Option (Json F) :=
  if s.head? = some 0xFEFF then none
  else
    match scanValue (s.length + 1) (skipBlanks s) with
    | some (v, rest) => if skipBlanks rest = [] then some v else none
    | none => none

/-- `json.detect_encoding`, and the decoding after it. -/
def decodeBytes (data : List UInt8) : Option Str :=
  let at_ (i : Nat) : Nat := ((data[i]?).getD 0).toNat
  if [0x00, 0x00, 0xFE, 0xFF].isPrefixOf data then decodeUtf32 true (data.drop 4)
  else if [0xFF, 0xFE, 0x00, 0x00].isPrefixOf data then decodeUtf32 false (data.drop 4)
  else if [0xFE, 0xFF].isPrefixOf data then decodeUtf16 true (data.drop 2)
  else if [0xFF, 0xFE].isPrefixOf data then decodeUtf16 false (data.drop 2)
  else if [0xEF, 0xBB, 0xBF].isPrefixOf data then decodeUtf8 (data.drop 3)
  else if 4 ≤ data.length then
    if at_ 0 = 0 then if at_ 1 = 0 then decodeUtf32 true data else decodeUtf16 true data
    else if at_ 1 = 0 then if at_ 2 = 0 ∧ at_ 3 = 0 then decodeUtf32 false data else decodeUtf16 false data
    else decodeUtf8 data
  else if data.length = 2 then
    if at_ 0 = 0 then decodeUtf16 true data
    else if at_ 1 = 0 then decodeUtf16 false data
    else decodeUtf8 data
  else decodeUtf8 data

/-- `json.loads` of `bytes`. -/
def loadsBytes (data : List UInt8) : Option (Json F) := (decodeBytes data).bind loads

/-! ### Printing -/

/-- `repr` of a `str`. -/
def textRepr (F : Type) [Runtime F] (s : Str) : Str :=
  let mark : CodePoint := if s.contains 0x27 && !s.contains quote then quote else 0x27
  let one (c : CodePoint) : Str :=
    if c = mark ∨ c = backslash then [backslash, c]
    else if c = 0x09 then str "\\t"
    else if c = 0x0A then str "\\n"
    else if c = 0x0D then str "\\r"
    else if Runtime.isPrintable F c then [c]
    else if c.val < 0x100 then [backslash, 0x78, hexDigit (c.val / 0x10), hexDigit (c.val % 0x10)]
    else if c.val < 0x10000 then unicodeEscape c.val
    else [backslash, 0x55, hexDigit 0, hexDigit 0] ++
      [c.val / 0x100000, c.val / 0x10000, c.val / 0x1000, c.val / 0x100, c.val / 0x10, c.val].map fun n => hexDigit (n % 0x10)
  mark :: (s.flatMap one ++ [mark])

def floatRepr : Double F → Str
  | .nan => str "nan"
  | .infinity false => str "inf"
  | .infinity true => str "-inf"
  | .finite x => Runtime.repr x

mutual
/-- `repr` of a value. -/
def repr : Json F → Str
  | .null => str "None"
  | .bool true => str "True"
  | .bool false => str "False"
  | .int n => intRepr n
  | .float x => floatRepr x
  | .text s => textRepr F s
  | .array items => openBracket :: (reprItems items ++ [closeBracket])
  | .object members => openBrace :: (reprMembers members ++ [closeBrace])

def reprItems : List (Json F) → Str
  | [] => []
  | v :: items => repr v ++ (if items.isEmpty then [] else str ", ") ++ reprItems items

def reprMembers : List (Str × Json F) → Str
  | [] => []
  | (k, v) :: members => textRepr F k ++ str ": " ++ repr v ++ (if members.isEmpty then [] else str ", ") ++ reprMembers members
end

/-- `str` of a value. -/
def toStr : Json F → Str
  | .text s => s
  | v => repr v

/-- `d.get(k)` on the members of an object. -/
def get? (k : Str) (members : List (Str × Json F)) : Option (Json F) := lookup k members

end Json

end NetherNet.Library
