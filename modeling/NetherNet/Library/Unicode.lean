import Mathlib.Data.List.Basic

/-! Strings as sequences of code points, lone surrogates included, and the encodings
of Unicode: what `str.encode` writes and what `bytes.decode(…, "surrogatepass")` reads. -/
namespace NetherNet.Library

abbrev CodePoint := Fin 0x110000

instance codePoints_pos : @NeZero Nat Zero.ofOfNat0 0x110000 := ⟨Nat.succ_ne_zero _⟩

abbrev Str := List CodePoint

def CodePoint.ofChar (c : Char) : CodePoint :=
  ⟨c.toNat, by
    have h := c.valid
    simp only [UInt32.isValidChar, Nat.isValidChar] at h
    show c.val.toNat < 0x110000
    omega⟩

/-- The code points of a literal. -/
def str (s : String) : Str := s.toList.map CodePoint.ofChar

namespace CodePoint

def ofNat (n : Nat) : CodePoint := Fin.ofNat 0x110000 n

theorem val_ofNat {n : Nat} (h : n < 0x110000) : (ofNat n).val = n := Nat.mod_eq_of_lt h

@[simp] theorem ofNat_val (c : CodePoint) : ofNat c.val = c := Fin.ext (Nat.mod_eq_of_lt c.isLt)

/-- `n` as a code point, where it is one. -/
def ofNat? (n : Nat) : Option CodePoint := if h : n < 0x110000 then some ⟨n, h⟩ else none

def isHigh (c : CodePoint) : Bool := 0xD800 ≤ c.val ∧ c.val < 0xDC00
def isLow (c : CodePoint) : Bool := 0xDC00 ≤ c.val ∧ c.val < 0xE000
def isSurrogate (c : CodePoint) : Bool := 0xD800 ≤ c.val ∧ c.val < 0xE000
def isAscii (c : CodePoint) : Bool := c.val < 0x80

/-- The code point of a surrogate pair. -/
def join (high low : CodePoint) : CodePoint :=
  ofNat (0x10000 + (high.val % 0x400) * 0x400 + low.val % 0x400)

/-- The UTF-8 bytes of one code point. -/
def utf8 (c : CodePoint) : List UInt8 :=
  let n := c.val
  if n < 0x80 then [.ofNat n]
  else if n < 0x800 then [.ofNat (0xC0 + n / 0x40), .ofNat (0x80 + n % 0x40)]
  else if n < 0x10000 then
    [.ofNat (0xE0 + n / 0x1000), .ofNat (0x80 + n / 0x40 % 0x40), .ofNat (0x80 + n % 0x40)]
  else
    [.ofNat (0xF0 + n / 0x40000), .ofNat (0x80 + n / 0x1000 % 0x40), .ofNat (0x80 + n / 0x40 % 0x40),
      .ofNat (0x80 + n % 0x40)]

end CodePoint

/-- `str.encode()`, which refuses surrogates. -/
def encodeUtf8 (s : Str) : Option (List UInt8) :=
  if s.any CodePoint.isSurrogate then none else some (s.flatMap CodePoint.utf8)

/-- The value of a lead byte's bits and of the continuation bytes after it. -/
def continued (lead : Nat) : List UInt8 → Option Nat
  | [] => some lead
  | b :: rest => if 0x80 ≤ b.toNat ∧ b.toNat < 0xC0 then continued (lead * 0x40 + b.toNat % 0x40) rest else none

/-- A sequence's code point, if it is not too large and not written longer than it need be. -/
def sequencePoint (least : Nat) (value : Option Nat) : Option CodePoint :=
  value.bind fun n => if n < least then none else CodePoint.ofNat? n

/-- UTF-8, surrogates let through. -/
def decodeUtf8 : List UInt8 → Option Str
  | [] => some []
  | a :: rest =>
    let lead := a.toNat
    if lead < 0x80 then
      (sequencePoint 0 (some lead)).bind fun c => (decodeUtf8 rest).map (c :: ·)
    else if lead < 0xC0 then none
    else if lead < 0xE0 then
      match rest with
      | b :: rest =>
        (sequencePoint 0x80 (continued (lead % 0x20) [b])).bind fun c => (decodeUtf8 rest).map (c :: ·)
      | _ => none
    else if lead < 0xF0 then
      match rest with
      | b :: c :: rest =>
        (sequencePoint 0x800 (continued (lead % 0x10) [b, c])).bind fun c => (decodeUtf8 rest).map (c :: ·)
      | _ => none
    else if lead < 0xF8 then
      match rest with
      | b :: c :: d :: rest =>
        (sequencePoint 0x10000 (continued (lead % 0x08) [b, c, d])).bind fun c => (decodeUtf8 rest).map (c :: ·)
      | _ => none
    else none

/-- Two bytes as a number. -/
def unit16 (big : Bool) (a b : UInt8) : Nat :=
  if big then a.toNat * 0x100 + b.toNat else b.toNat * 0x100 + a.toNat

def units16 (big : Bool) : List UInt8 → Option (List CodePoint)
  | [] => some []
  | [_] => none
  | a :: b :: rest => (units16 big rest).map (CodePoint.ofNat (unit16 big a b) :: ·)

/-- Surrogate pairs joined, lone surrogates left as they are. -/
def joinPairs : List CodePoint → Str
  | [] => []
  | [c] => [c]
  | c :: d :: rest => if c.isHigh ∧ d.isLow then CodePoint.join c d :: joinPairs rest else c :: joinPairs (d :: rest)

def decodeUtf16 (big : Bool) (data : List UInt8) : Option Str := (units16 big data).map joinPairs

def decodeUtf32 (big : Bool) : List UInt8 → Option Str
  | [] => some []
  | a :: b :: c :: d :: rest =>
    let n := if big then unit16 big a b * 0x10000 + unit16 big c d else unit16 big c d * 0x10000 + unit16 big a b
    (CodePoint.ofNat? n).bind fun p => (decodeUtf32 big rest).map (p :: ·)
  | _ => none

/-! ### What was encoded is read back -/

private theorem toNat_ofNat {n : Nat} (h : n < 256) : (UInt8.ofNat n).toNat = n := by
  rw [UInt8.toNat_ofNat', Nat.mod_eq_of_lt h]

private theorem sequencePoint_val {least : Nat} (c : CodePoint) (h : least ≤ c.val) :
    sequencePoint least (some c.val) = some c := by
  have hc := c.isLt
  simp [sequencePoint, CodePoint.ofNat?, hc, Nat.not_lt.mpr h]

private theorem continued_cons {lead n : Nat} {rest : List UInt8} (h : n < 0x40) :
    continued lead (.ofNat (0x80 + n) :: rest) = continued (lead * 0x40 + n) rest := by
  have hb : (UInt8.ofNat (0x80 + n)).toNat = 0x80 + n := toNat_ofNat (by omega)
  rw [continued, hb, if_pos (by omega)]
  congr 2
  omega

theorem decodeUtf8_utf8 (c : CodePoint) (rest : List UInt8) :
    decodeUtf8 (c.utf8 ++ rest) = (decodeUtf8 rest).map (c :: ·) := by
  have hc := c.isLt
  unfold CodePoint.utf8
  by_cases h1 : c.val < 0x80
  · have ha : (UInt8.ofNat c.val).toNat = c.val := toNat_ofNat (by omega)
    simp only [h1, if_true, List.cons_append, List.nil_append]
    rw [decodeUtf8.eq_def]
    simp only [ha]
    rw [if_pos h1, sequencePoint_val c (Nat.zero_le _)]
    rfl
  by_cases h2 : c.val < 0x800
  · have ha : (UInt8.ofNat (0xC0 + c.val / 0x40)).toNat = 0xC0 + c.val / 0x40 := toNat_ofNat (by omega)
    have hv : (0xC0 + c.val / 0x40) % 0x20 * 0x40 + c.val % 0x40 = c.val := by omega
    simp only [h1, h2, if_false, if_true, List.cons_append, List.nil_append]
    rw [decodeUtf8.eq_def]
    simp only [ha]
    rw [if_neg (by omega), if_neg (by omega), if_pos (by omega), continued_cons (by omega), hv, continued,
      sequencePoint_val c (by omega)]
    rfl
  by_cases h3 : c.val < 0x10000
  · have ha : (UInt8.ofNat (0xE0 + c.val / 0x1000)).toNat = 0xE0 + c.val / 0x1000 := toNat_ofNat (by omega)
    have hv : ((0xE0 + c.val / 0x1000) % 0x10 * 0x40 + c.val / 0x40 % 0x40) * 0x40 + c.val % 0x40 = c.val := by omega
    simp only [h1, h2, h3, if_false, if_true, List.cons_append, List.nil_append]
    rw [decodeUtf8.eq_def]
    simp only [ha]
    rw [if_neg (by omega), if_neg (by omega), if_neg (by omega), if_pos (by omega), continued_cons (by omega),
      continued_cons (by omega), hv, continued, sequencePoint_val c (by omega)]
    rfl
  · have ha : (UInt8.ofNat (0xF0 + c.val / 0x40000)).toNat = 0xF0 + c.val / 0x40000 := toNat_ofNat (by omega)
    have hv : (((0xF0 + c.val / 0x40000) % 0x08 * 0x40 + c.val / 0x1000 % 0x40) * 0x40 + c.val / 0x40 % 0x40) * 0x40 +
        c.val % 0x40 = c.val := by omega
    simp only [h1, h2, h3, if_false, List.cons_append, List.nil_append]
    rw [decodeUtf8.eq_def]
    simp only [ha]
    rw [if_neg (by omega), if_neg (by omega), if_neg (by omega), if_neg (by omega), if_pos (by omega),
      continued_cons (by omega), continued_cons (by omega), continued_cons (by omega), hv, continued,
      sequencePoint_val c (by omega)]
    rfl

theorem decodeUtf8_encode (s : Str) : decodeUtf8 (s.flatMap CodePoint.utf8) = some s := by
  induction s with
  | nil => rfl
  | cons c s ih => rw [List.flatMap_cons, decodeUtf8_utf8, ih, Option.map_some]

theorem decodeUtf8_of_encode {s : Str} {data : List UInt8} (h : encodeUtf8 s = some data) : decodeUtf8 data = some s := by
  rw [encodeUtf8] at h
  split at h
  · exact absurd h (by simp)
  · rw [← Option.some.inj h, decodeUtf8_encode]

/-- Two texts with the same bytes are the same text. -/
theorem encodeUtf8_inj {s t : Str} {data : List UInt8} (hs : encodeUtf8 s = some data) (ht : encodeUtf8 t = some data) : s = t :=
  Option.some.inj ((decodeUtf8_of_encode hs).symm.trans (decodeUtf8_of_encode ht))

theorem encodeUtf8_ascii {s : Str} (h : ∀ c ∈ s, c.isAscii = true) : encodeUtf8 s = some (s.map fun c => UInt8.ofNat c.val) := by
  have hnone : s.any CodePoint.isSurrogate = false := by
    rw [List.any_eq_false]
    intro c hc
    have := h c hc
    simp only [CodePoint.isAscii, CodePoint.isSurrogate, decide_eq_true_eq] at this ⊢
    omega
  rw [encodeUtf8, if_neg (by simp [hnone])]
  congr 1
  induction s with
  | nil => rfl
  | cons c s ih =>
    have hc : c.val < 0x80 := by simpa [CodePoint.isAscii] using h c List.mem_cons_self
    rw [List.flatMap_cons, List.map_cons, ih (fun d hd => h d (List.mem_cons_of_mem _ hd))]
    · simp [CodePoint.utf8, hc]
    · rw [List.any_cons, Bool.or_eq_false_iff] at hnone
      exact hnone.2

end NetherNet.Library
