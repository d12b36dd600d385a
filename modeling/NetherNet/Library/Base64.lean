import Mathlib.Data.List.DropRight
import NetherNet.Library.Unicode

/-! Base64 as the `base64` module has it: the strict and the lenient decoder, the
URL-safe alphabet and texts without padding. -/
namespace NetherNet.Library.Base64

def padding : CodePoint := 0x3D

/-- The character of six bits. -/
def digit (n : Nat) : CodePoint :=
  if n < 26 then CodePoint.ofNat (0x41 + n)
  else if n < 52 then CodePoint.ofNat (0x61 + (n - 26))
  else if n < 62 then CodePoint.ofNat (0x30 + (n - 52))
  else if n = 62 then 0x2B
  else 0x2F

/-- The six bits of a character. -/
def value? (c : CodePoint) : Option Nat :=
  let n := c.val
  if 0x41 ≤ n ∧ n ≤ 0x5A then some (n - 0x41)
  else if 0x61 ≤ n ∧ n ≤ 0x7A then some (n - 0x61 + 26)
  else if 0x30 ≤ n ∧ n ≤ 0x39 then some (n - 0x30 + 52)
  else if n = 0x2B then some 62
  else if n = 0x2F then some 63
  else none

/-- `base64.b64encode`. -/
def encode : List UInt8 → Str
  | [] => []
  | [a] => [digit (a.toNat / 4), digit (a.toNat % 4 * 16), padding, padding]
  | [a, b] => [digit (a.toNat / 4), digit (a.toNat % 4 * 16 + b.toNat / 16), digit (b.toNat % 16 * 4), padding]
  | a :: b :: c :: rest =>
    digit (a.toNat / 4) :: digit (a.toNat % 4 * 16 + b.toNat / 16) :: digit (b.toNat % 16 * 4 + c.toNat / 64) ::
      digit (c.toNat % 64) :: encode rest

/-- The loop of `binascii.a2b_base64`: the place in the group of four, the bits left over, the
padding characters counted since the last digit, and whether any was seen. -/
def decodeFrom (strict : Bool) : (quad left pads : Nat) → (padded : Bool) → Str → Option (List UInt8)
  | quad, _, _, _, [] => if quad = 0 then some [] else none
  | quad, left, pads, padded, c :: rest =>
    if c = padding then
      if 2 ≤ quad then
        if 4 ≤ quad + (pads + 1) then if strict ∧ rest ≠ [] then none else some []
        else decodeFrom strict quad left (pads + 1) true rest
      else decodeFrom strict quad left pads true rest
    else
      match value? c with
      | none => if strict then none else decodeFrom strict quad left pads padded rest
      | some v =>
        if strict ∧ padded then none
        else
          match quad with
          | 0 => decodeFrom strict 1 v 0 padded rest
          | 1 => (decodeFrom strict 2 (v % 16) 0 padded rest).map (UInt8.ofNat (left * 4 + v / 16) :: ·)
          | 2 => (decodeFrom strict 3 (v % 4) 0 padded rest).map (UInt8.ofNat (left * 16 + v / 4) :: ·)
          | _ => (decodeFrom strict 0 0 0 padded rest).map (UInt8.ofNat (left * 64 + v) :: ·)

/-- `base64.b64decode(s, validate=strict)` of a text. -/
def decode (strict : Bool) (s : Str) : Option (List UInt8) :=
  if ¬ s.all CodePoint.isAscii then none
  else if strict ∧ s.head? = some padding then none
  else decodeFrom strict 0 0 0 false s

def toUrl (c : CodePoint) : CodePoint := if c = 0x2B then 0x2D else if c = 0x2F then 0x5F else c
def ofUrl (c : CodePoint) : CodePoint := if c = 0x2D then 0x2B else if c = 0x5F then 0x2F else c

/-- `base64.urlsafe_b64encode`. -/
def urlsafeEncode (data : List UInt8) : Str := (encode data).map toUrl

/-- `base64.urlsafe_b64decode` of a text. -/
def urlsafeDecode (s : Str) : Option (List UInt8) := decode false (s.map ofUrl)

/-! ### What was encoded is decoded -/

theorem value?_digit {n : Nat} (h : n < 64) : value? (digit n) = some n := by
  have hall : ∀ n : Fin 64, value? (digit n.val) = some n.val := by decide
  exact hall ⟨n, h⟩

theorem digit_ne_padding {n : Nat} (h : n < 64) : digit n ≠ padding := by
  have hall : ∀ n : Fin 64, digit n.val ≠ padding := by decide
  exact hall ⟨n, h⟩

private theorem decodeFrom_digit (strict : Bool) (quad left pads : Nat) {n : Nat} (h : n < 64) (rest : Str) :
    decodeFrom strict quad left pads false (digit n :: rest) =
      match quad with
      | 0 => decodeFrom strict 1 n 0 false rest
      | 1 => (decodeFrom strict 2 (n % 16) 0 false rest).map (UInt8.ofNat (left * 4 + n / 16) :: ·)
      | 2 => (decodeFrom strict 3 (n % 4) 0 false rest).map (UInt8.ofNat (left * 16 + n / 4) :: ·)
      | _ => (decodeFrom strict 0 0 0 false rest).map (UInt8.ofNat (left * 64 + n) :: ·) := by
  rw [decodeFrom.eq_def]
  simp only [digit_ne_padding h, value?_digit h, if_false]
  simp

private theorem ofNat_eq {b : UInt8} {n : Nat} (h : n = b.toNat) : UInt8.ofNat n = b := by
  rw [h, UInt8.ofNat_toNat]

private theorem first_byte (a : UInt8) (n : Nat) (h : n < 16) : UInt8.ofNat (a.toNat / 4 * 4 + (a.toNat % 4 * 16 + n) / 16) = a :=
  ofNat_eq (by omega)

private theorem second_byte (a : Nat) (b : UInt8) (n : Nat) (h : n < 4) :
    UInt8.ofNat ((a * 16 + b.toNat / 16) % 16 * 16 + (b.toNat % 16 * 4 + n) / 4) = b := by
  have hb := b.toNat_lt
  exact ofNat_eq (by omega)

private theorem third_byte (b : Nat) (c : UInt8) : UInt8.ofNat ((b * 4 + c.toNat / 64) % 4 * 64 + c.toNat % 64) = c := by
  have hc := c.toNat_lt
  exact ofNat_eq (by omega)

private theorem decodeFrom_two (strict : Bool) (left : Nat) : decodeFrom strict 2 left 0 false [padding, padding] = some [] := by
  cases strict <;> rfl

private theorem decodeFrom_three (strict : Bool) (left : Nat) : decodeFrom strict 3 left 0 false [padding] = some [] := by
  cases strict <;> rfl

private theorem decodeFrom_encode (strict : Bool) (data : List UInt8) : decodeFrom strict 0 0 0 false (encode data) = some data := by
  induction data using encode.induct with
  | case1 => rfl
  | case2 a =>
    have ha := a.toNat_lt
    rw [encode, decodeFrom_digit strict 0 0 0 (by omega)]
    simp only
    rw [decodeFrom_digit strict 1 _ 0 (by omega)]
    simp only
    have hfirst := first_byte a 0 (by decide)
    rw [Nat.add_zero] at hfirst
    rw [decodeFrom_two, hfirst]
    rfl
  | case3 a b =>
    have ha := a.toNat_lt
    have hb := b.toNat_lt
    rw [encode, decodeFrom_digit strict 0 0 0 (by omega)]
    simp only
    rw [decodeFrom_digit strict 1 _ 0 (by omega)]
    simp only
    rw [decodeFrom_digit strict 2 _ 0 (by omega)]
    simp only
    have hsecond := second_byte (a.toNat % 4) b 0 (by decide)
    rw [Nat.add_zero] at hsecond
    rw [decodeFrom_three, first_byte a _ (show b.toNat / 16 < 16 by omega), hsecond]
    rfl
  | case4 a b c rest ih =>
    have ha := a.toNat_lt
    have hb := b.toNat_lt
    have hc := c.toNat_lt
    rw [encode, decodeFrom_digit strict 0 0 0 (by omega)]
    simp only
    rw [decodeFrom_digit strict 1 _ 0 (by omega)]
    simp only
    rw [decodeFrom_digit strict 2 _ 0 (by omega)]
    simp only
    rw [decodeFrom_digit strict 3 _ 0 (by omega)]
    simp only
    rw [ih, first_byte a _ (show b.toNat / 16 < 16 by omega), second_byte _ b _ (show c.toNat / 64 < 4 by omega), third_byte]
    rfl

/-- The digits of the encoding, without the padding. -/
def digits : List UInt8 → Str
  | [] => []
  | [a] => [digit (a.toNat / 4), digit (a.toNat % 4 * 16)]
  | [a, b] => [digit (a.toNat / 4), digit (a.toNat % 4 * 16 + b.toNat / 16), digit (b.toNat % 16 * 4)]
  | a :: b :: c :: rest =>
    digit (a.toNat / 4) :: digit (a.toNat % 4 * 16 + b.toNat / 16) :: digit (b.toNat % 16 * 4 + c.toNat / 64) ::
      digit (c.toNat % 64) :: digits rest

theorem encode_eq_digits (data : List UInt8) :
    encode data = digits data ++ List.replicate ((4 - (digits data).length % 4) % 4) padding := by
  induction data using encode.induct with
  | case1 => rfl
  | case2 a => rfl
  | case3 a b => rfl
  | case4 a b c rest ih =>
    rw [encode, digits, ih]
    simp only [List.length_cons, List.cons_append, Nat.add_assoc, Nat.reduceAdd, Nat.add_mod_right]

theorem exists_digit_of_mem {data : List UInt8} {c : CodePoint} (h : c ∈ digits data) : ∃ n < 64, c = digit n := by
  induction data using encode.induct with
  | case1 => exact absurd h (by simp [digits])
  | case2 a =>
    have ha := a.toNat_lt
    simp only [digits, List.mem_cons, List.not_mem_nil, or_false] at h
    obtain rfl | rfl := h <;> exact ⟨_, by omega, rfl⟩
  | case3 a b =>
    have ha := a.toNat_lt
    have hb := b.toNat_lt
    simp only [digits, List.mem_cons, List.not_mem_nil, or_false] at h
    obtain rfl | rfl | rfl := h <;> exact ⟨_, by omega, rfl⟩
  | case4 a b c rest ih =>
    have ha := a.toNat_lt
    have hb := b.toNat_lt
    have hc := c.toNat_lt
    simp only [digits, List.mem_cons] at h
    obtain rfl | rfl | rfl | rfl | h := h
    all_goals first | exact ih h | exact ⟨_, by omega, rfl⟩

private theorem digit_facts {n : Nat} (h : n < 64) :
    (digit n).isAscii = true ∧ (toUrl (digit n)).isAscii = true ∧ ofUrl (toUrl (digit n)) = digit n ∧ toUrl (digit n) ≠ padding ∧
      toUrl (digit n) ≠ 0x2E ∧ (digit n).val > 0x20 := by
  have hall : ∀ n : Fin 64, (digit n.val).isAscii = true ∧ (toUrl (digit n.val)).isAscii = true ∧
      ofUrl (toUrl (digit n.val)) = digit n.val ∧ toUrl (digit n.val) ≠ padding ∧ toUrl (digit n.val) ≠ 0x2E ∧
      (digit n.val).val > 0x20 := by decide
  exact hall ⟨n, h⟩

/-- Every character of an encoding is ASCII and visible. -/
theorem encode_visible {data : List UInt8} {c : CodePoint} (h : c ∈ encode data) : c.isAscii = true ∧ 0x20 < c.val := by
  rw [encode_eq_digits, List.mem_append] at h
  obtain h | h := h
  · obtain ⟨n, hn, rfl⟩ := exists_digit_of_mem h
    exact ⟨(digit_facts hn).1, (digit_facts hn).2.2.2.2.2⟩
  · rw [(List.mem_replicate.mp h).2]
    decide

/-- No encoding starts with the padding. -/
private theorem encode_head (data : List UInt8) : (encode data).head? ≠ some padding := by
  cases data with
  | nil => simp [encode]
  | cons a rest =>
    have ha := a.toNat_lt
    have hd := digit_ne_padding (show a.toNat / 4 < 64 by omega)
    obtain _ | ⟨b, _ | ⟨c, rest⟩⟩ := rest
    all_goals simpa [encode] using hd

theorem decode_encode (strict : Bool) (data : List UInt8) : decode strict (encode data) = some data := by
  have hascii : (encode data).all CodePoint.isAscii = true := by
    rw [List.all_eq_true]
    intro c hc
    exact (encode_visible hc).1
  rw [decode, if_neg (by simp [hascii]), if_neg (fun h => encode_head data h.2), decodeFrom_encode]

/-! ### The URL-safe alphabet without padding -/

/-- Padding taken off at the right end. -/
def unpad (s : Str) : Str := s.rdropWhile (· = padding)

/-- Padding put back up to a multiple of four characters. -/
def repad (s : Str) : Str := s ++ List.replicate ((4 - s.length % 4) % 4) padding

theorem unpad_urlsafeEncode (data : List UInt8) : unpad (urlsafeEncode data) = (digits data).map toUrl := by
  have hpad : ∀ (s : Str) (n : Nat), unpad (s ++ List.replicate n padding) = unpad s := by
    intro s n
    induction n with
    | zero => rw [List.replicate_zero, List.append_nil]
    | succ n ih => rw [List.replicate_succ', ← List.append_assoc, unpad, List.rdropWhile_concat_pos _ _ _ (by simp)]; exact ih
  have hself : unpad ((digits data).map toUrl) = (digits data).map toUrl := by
    rw [unpad, List.rdropWhile_eq_self_iff]
    intro hne
    obtain ⟨c, hc, hlast⟩ := List.mem_map.mp (List.getLast_mem hne)
    obtain ⟨n, hn, rfl⟩ := exists_digit_of_mem hc
    rw [← hlast]
    simpa using (digit_facts hn).2.2.2.1
  have hmap : (List.replicate ((4 - (digits data).length % 4) % 4) padding).map toUrl =
      List.replicate ((4 - (digits data).length % 4) % 4) padding := by
    rw [List.map_replicate]
    rfl
  rw [urlsafeEncode, encode_eq_digits, List.map_append, hmap, hpad, hself]

/-- Unpadded URL-safe texts hold no full stop and nothing outside ASCII. -/
theorem unpad_plain {data : List UInt8} {c : CodePoint} (h : c ∈ unpad (urlsafeEncode data)) : c.isAscii = true ∧ c ≠ 0x2E := by
  rw [unpad_urlsafeEncode] at h
  obtain ⟨d, hd, rfl⟩ := List.mem_map.mp h
  obtain ⟨n, hn, rfl⟩ := exists_digit_of_mem hd
  exact ⟨(digit_facts hn).2.1, (digit_facts hn).2.2.2.2.1⟩

theorem urlsafeDecode_repad (data : List UInt8) : urlsafeDecode (repad (unpad (urlsafeEncode data))) = some data := by
  have hback : ((digits data).map toUrl).map ofUrl = digits data := by
    rw [List.map_map]
    conv_rhs => rw [← List.map_id (digits data)]
    apply List.map_congr_left
    intro c hc
    obtain ⟨n, hn, rfl⟩ := exists_digit_of_mem hc
    exact (digit_facts hn).2.2.1
  rw [unpad_urlsafeEncode, repad, urlsafeDecode, List.map_append, hback, List.map_replicate, List.length_map]
  rw [show ofUrl padding = padding from rfl, ← encode_eq_digits, decode_encode]

/-- Different data have different unpadded texts. -/
theorem unpad_urlsafeEncode_inj {a b : List UInt8} (h : unpad (urlsafeEncode a) = unpad (urlsafeEncode b)) : a = b := by
  have ha := urlsafeDecode_repad a
  rw [h, urlsafeDecode_repad b] at ha
  exact (Option.some.inj ha).symm

/-- What the decoder takes is ASCII. -/
theorem ascii_of_urlsafeDecode {s : Str} {data : List UInt8} (h : urlsafeDecode (repad s) = some data) : s.all CodePoint.isAscii = true := by
  have hmapped : ((repad s).map ofUrl).all CodePoint.isAscii = true := by
    by_contra hno
    rw [urlsafeDecode, decode, if_pos hno] at h
    exact absurd h (by simp)
  rw [List.all_eq_true] at hmapped ⊢
  intro c hc
  have hof := hmapped (ofUrl c) (List.mem_map_of_mem (List.mem_append_left _ hc))
  unfold ofUrl at hof
  split at hof
  · next heq => rw [heq]; decide
  · split at hof
    · next heq => rw [heq]; decide
    · exact hof

end NetherNet.Library.Base64
