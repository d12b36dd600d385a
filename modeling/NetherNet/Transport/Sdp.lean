import NetherNet.Protocol.NetworkId

/-! The text passes over a session description: lines as `str.splitlines` splits
them, the message size attribute and the candidate lines. -/
namespace NetherNet.Sdp

/-- The line boundaries of `str.splitlines`. -/
def isLineBreak (c : Char) : Bool :=
  c.toNat ∈ [0x0A, 0x0B, 0x0C, 0x0D, 0x1C, 0x1D, 0x1E, 0x85, 0x2028, 0x2029]

/-- `str.isspace` of one character, as `strip` uses it. -/
def isSpace (c : Char) : Bool :=
  let n := c.toNat
  (9 ≤ n ∧ n ≤ 13) ∨ (0x1C ≤ n ∧ n ≤ 0x20) ∨ n = 0x85 ∨ n = 0xA0 ∨ n = 0x1680 ∨
    (0x2000 ≤ n ∧ n ≤ 0x200A) ∨ n = 0x2028 ∨ n = 0x2029 ∨ n = 0x202F ∨ n = 0x205F ∨ n = 0x3000

/-- `splitlines(keepends=True)`; a carriage return and the line feed after it are one break. -/
def splitLines : Text → List Text
  | [] => []
  | c :: rest =>
    if isLineBreak c ∧ ¬ (c = '\r' ∧ rest.head? = some '\n') then [c] :: splitLines rest
    else
      match splitLines rest with
      | [] => [[c]]
      | line :: lines => (c :: line) :: lines

/-- `str.strip()`. -/
def strip (s : Text) : Text := ((s.dropWhile isSpace).reverse.dropWhile isSpace).reverse

/-- `needle in s`. -/
def contains (needle : Text) : Text → Bool
  | [] => needle.isEmpty
  | c :: rest => needle.isPrefixOf (c :: rest) || contains needle rest

def startsWith (s front : Text) : Bool := front.isPrefixOf s

def candidatePrefix : Text := "a=candidate:".toList
def endOfCandidates : Text := "a=end-of-candidates".toList
def sctpPort : Text := "a=sctp-port:".toList
def maxMessageSizePrefix : Text := "a=max-message-size:".toList
def typRelay : Text := " typ relay".toList

/-- The value `_local_sdp` advertises. -/
def maxMessageSize : Nat := 262144

/-- The first digit of each block of ten decimal digits of Unicode, for `\d`. -/
def digitBlocks : List Nat :=
  [0x30, 0x660, 0x6F0, 0x7C0, 0x966, 0x9E6, 0xA66, 0xAE6, 0xB66, 0xBE6, 0xC66, 0xCE6, 0xD66, 0xDE6, 0xE50,
   0xED0, 0xF20, 0x1040, 0x1090, 0x17E0, 0x1810, 0x1946, 0x19D0, 0x1A80, 0x1A90, 0x1B50, 0x1BB0, 0x1C40,
   0x1C50, 0xA620, 0xA8D0, 0xA900, 0xA9D0, 0xA9F0, 0xAA50, 0xABF0, 0xFF10, 0x104A0, 0x10D30, 0x11066,
   0x110F0, 0x11136, 0x111D0, 0x112F0, 0x11450, 0x114D0, 0x11650, 0x116C0, 0x11730, 0x118E0, 0x11950,
   0x11C50, 0x11D50, 0x11DA0, 0x11F50, 0x16A60, 0x16AC0, 0x16B50, 0x1D7CE, 0x1D7D8, 0x1D7E2, 0x1D7EC,
   0x1D7F6, 0x1E140, 0x1E2F0, 0x1E4F0, 0x1E950, 0x1FBF0]

def isUnicodeDigit (c : Char) : Bool := digitBlocks.any fun d => d ≤ c.toNat ∧ c.toNat < d + 10

/-- `re.sub(r"a=max-message-size:\d+", …)`: `skip` counts the characters of a match still to pass over. -/
def substituteSize (value : Nat) : (skip : Nat) → Text → Text
  | _, [] => []
  | skip + 1, _ :: rest => substituteSize value skip rest
  | 0, c :: rest =>
    let digits := ((c :: rest).drop maxMessageSizePrefix.length).takeWhile isUnicodeDigit
    if startsWith (c :: rest) maxMessageSizePrefix ∧ digits ≠ [] then
      maxMessageSizePrefix ++ decimal value ++
        substituteSize value (maxMessageSizePrefix.length + digits.length - 1) rest
    else c :: substituteSize value 0 rest

def setMaxMessageSize (sdp : Text) (value : Nat) : Text :=
  if contains maxMessageSizePrefix sdp then substituteSize value 0 sdp
  else (splitLines sdp).flatMap fun line =>
    if startsWith line sctpPort then
      let newline := if line.drop (line.length - 2) = ['\r', '\n'] then ['\r', '\n'] else ['\n']
      line ++ (maxMessageSizePrefix ++ decimal value ++ newline)
    else line

/-- `strip_candidates`: the description without its candidates, and the candidates. -/
def stripCandidates (sdp : Text) : Text × List Text :=
  let lines := splitLines sdp
  let isCandidate := fun line => startsWith (strip line) candidatePrefix
  ((lines.filter fun line => ¬ isCandidate line ∧ strip line ≠ endOfCandidates).flatten,
   (lines.filter fun line => isCandidate line).map fun line => (strip line).drop 2)

def keepOnlyRelayCandidates (sdp : Text) : Text :=
  ((splitLines sdp).filter fun line => ¬ (startsWith line candidatePrefix ∧ ¬ contains typRelay line)).flatten

end NetherNet.Sdp
