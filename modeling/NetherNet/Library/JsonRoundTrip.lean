import Mathlib.Data.List.Chain
import NetherNet.Library.Decimal
import NetherNet.Library.Json

/-! What `json.dumps` writes, `json.loads` reads back: string literals, numbers, and
then every value whose strings hold no split surrogate pair. -/
namespace NetherNet.Library.Json

/-! ### String literals -/

private theorem hexValue?_hexDigit {n : Nat} (h : n < 0x10) : hexValue? (hexDigit n) = some n := by
  have hall : ∀ n : Fin 0x10, hexValue? (hexDigit n.val) = some n.val := by decide
  exact hall ⟨n, h⟩

/-- The four digits of a code unit. -/
private theorem scanHex_escape {n : Nat} (h : n < 0x10000) (rest : Str) :
    scanHex ((unicodeEscape n).drop 2 ++ rest) = some (CodePoint.ofNat n, rest) := by
  have hn : n / 0x1000 % 0x10 * 0x1000 + n / 0x100 % 0x10 * 0x100 + n / 0x10 % 0x10 * 0x10 + n % 0x10 = n := by omega
  have h3 := hexValue?_hexDigit (show n / 0x1000 % 0x10 < 0x10 by omega)
  have h2 := hexValue?_hexDigit (show n / 0x100 % 0x10 < 0x10 by omega)
  have h1 := hexValue?_hexDigit (show n / 0x10 % 0x10 < 0x10 by omega)
  have h0 := hexValue?_hexDigit (show n % 0x10 < 0x10 by omega)
  simp only [unicodeEscape, List.drop_succ_cons, List.drop_zero, List.cons_append, List.nil_append, scanHex, h3, h2, h1, h0,
    Option.bind_eq_bind, Option.bind_some, hn]

/-- No low surrogate is written next. -/
def Clear (rest : Str) : Prop :=
  ∀ after, rest = backslash :: letterU :: after → ∃ c more, scanHex after = some (c, more) ∧ c.isLow = false

theorem clear_quote (rest : Str) : Clear (quote :: rest) := by
  intro after h
  exact absurd (List.cons.inj h).1 (by decide)

private theorem scanUnicode_single {n : Nat} (h : n < 0x10000) {rest : Str} (hn : n < 0xD800 ∨ 0xDC00 ≤ n ∨ Clear rest) :
    scanUnicode ((unicodeEscape n).drop 2 ++ rest) = some (CodePoint.ofNat n, rest) := by
  have hval : (CodePoint.ofNat n).val = n := CodePoint.val_ofNat (by omega)
  rw [scanUnicode, scanHex_escape h]
  obtain _ | ⟨b, _ | ⟨u, after⟩⟩ := rest
  · rfl
  · rfl
  · by_cases hpair : (CodePoint.ofNat n).isHigh = true ∧ b = backslash ∧ u = letterU
    · obtain ⟨hhigh, rfl, rfl⟩ := hpair
      have hclear : Clear (backslash :: letterU :: after) := by
        simp only [CodePoint.isHigh, hval, decide_eq_true_eq] at hhigh
        obtain hn | hn | hn := hn
        · omega
        · omega
        · exact hn
      obtain ⟨c, more, hc, hlow⟩ := hclear after rfl
      simp only [hhigh, and_self, if_true, hc, hlow, Bool.false_eq_true, if_false]
    · simp only [if_neg hpair]

private theorem scanUnicode_pair {high low : Nat} (hh : 0xD800 ≤ high ∧ high < 0xDC00) (hl : 0xDC00 ≤ low ∧ low < 0xE000) (rest : Str) :
    scanUnicode ((unicodeEscape high).drop 2 ++ (unicodeEscape low ++ rest)) =
      some (CodePoint.join (CodePoint.ofNat high) (CodePoint.ofNat low), rest) := by
  have hhigh : (CodePoint.ofNat high).isHigh = true := by simp [CodePoint.isHigh, CodePoint.val_ofNat (show high < 0x110000 by omega), hh]
  have hlow : (CodePoint.ofNat low).isLow = true := by simp [CodePoint.isLow, CodePoint.val_ofNat (show low < 0x110000 by omega), hl]
  have hnext : scanHex ((unicodeEscape low).drop 2 ++ rest) = some (CodePoint.ofNat low, rest) := scanHex_escape (by omega) rest
  rw [scanUnicode, scanHex_escape (by omega)]
  simp only [unicodeEscape, List.drop_succ_cons, List.drop_zero, List.cons_append, List.nil_append] at hnext ⊢
  simp only [hhigh, and_self, if_true, hnext, hlow]

private theorem unescape?_shortEscape {c e : CodePoint} (h : shortEscape? c = some e) : unescape? e = some c ∧ e ≠ letterU := by
  unfold shortEscape? at h
  repeat'
    split at h
    · next heq =>
      rw [← Option.some.inj h, heq]
      decide
  exact absurd h (by simp)

private theorem scanChar_short {c e : CodePoint} (h : shortEscape? c = some e) (rest : Str) :
    scanChar (backslash :: e :: rest) = some (some c, rest) := by
  obtain ⟨hun, hu⟩ := unescape?_shortEscape h
  rw [scanChar, if_neg (by decide), if_pos rfl]
  simp only [if_neg hu, hun, Option.map_some]

private theorem scanChar_plain {c : CodePoint} (h : shortEscape? c = none) (hc : 0x20 ≤ c.val) (rest : Str) :
    scanChar (c :: rest) = some (some c, rest) := by
  have hq : c ≠ quote := by
    rintro rfl
    exact absurd h (by decide)
  have hb : c ≠ backslash := by
    rintro rfl
    exact absurd h (by decide)
  rw [scanChar.eq_def]
  simp only [if_neg hq, if_neg hb, if_neg (show ¬ c.val < 0x20 by omega)]

private theorem scanChar_unicode (n : Nat) (rest : Str) :
    scanChar (unicodeEscape n ++ rest) = (scanUnicode ((unicodeEscape n).drop 2 ++ rest)).map fun p => (some p.1, p.2) := rfl

/-- The surrogates of a code point past the first plane. -/
private theorem join_split (c : CodePoint) (h : 0x10000 ≤ c.val) :
    CodePoint.join (CodePoint.ofNat (0xD800 + (c.val - 0x10000) / 0x400)) (CodePoint.ofNat (0xDC00 + (c.val - 0x10000) % 0x400)) = c := by
  have hc := c.isLt
  apply Fin.ext
  rw [CodePoint.join, CodePoint.val_ofNat (n := 0xD800 + _) (by omega), CodePoint.val_ofNat (n := 0xDC00 + _) (by omega)]
  simp only [CodePoint.ofNat, Fin.ofNat]
  omega

/-- One written character is read back, a lone high surrogate where no low one is written next. -/
private theorem scanChar_escape (ascii : Bool) (c : CodePoint) {rest : Str} (h : ascii = true → c.isHigh = true → Clear rest) :
    scanChar (escape ascii c ++ rest) = some (some c, rest) := by
  have hc := c.isLt
  unfold escape
  cases hs : shortEscape? c with
  | some e => exact scanChar_short hs rest
  | none =>
    simp only
    by_cases hesc : c.val < 0x20 ∨ (ascii = true ∧ 0x7F ≤ c.val)
    · rw [if_pos hesc]
      by_cases hplane : c.val < 0x10000
      · have hclear : c.val < 0xD800 ∨ 0xDC00 ≤ c.val ∨ Clear rest := by
          by_cases hhigh : c.isHigh = true
          · obtain hlow | ⟨hascii, _⟩ := hesc
            · omega
            · exact .inr (.inr (h hascii hhigh))
          · simp only [CodePoint.isHigh, decide_eq_true_eq] at hhigh
            omega
        rw [if_pos hplane, scanChar_unicode, scanUnicode_single hplane hclear, CodePoint.ofNat_val]
        rfl
      · rw [if_neg hplane, List.append_assoc, scanChar_unicode,
          scanUnicode_pair (by omega) (by omega), join_split c (by omega)]
        rfl
    · rw [if_neg hesc]
      exact scanChar_plain hs (by omega) rest

private theorem clear_escape {c : CodePoint} (h : c.isLow = false) (rest : Str) : Clear (escape true c ++ rest) := by
  have hc := c.isLt
  intro after ha
  unfold escape at ha
  cases hs : shortEscape? c with
  | some e =>
    rw [hs] at ha
    have he : e = letterU := (List.cons.inj (List.cons.inj ha).2).1
    exact absurd he (unescape?_shortEscape hs).2
  | none =>
    rw [hs] at ha
    simp only at ha
    split at ha
    · split at ha
      · next hplane =>
        obtain rfl : (unicodeEscape c.val).drop 2 ++ rest = after := (List.cons.inj (List.cons.inj ha).2).2
        exact ⟨_, _, scanHex_escape hplane rest, by rw [CodePoint.ofNat_val]; exact h⟩
      · rw [List.append_assoc] at ha
        obtain rfl := (List.cons.inj (List.cons.inj ha).2).2
        refine ⟨_, _, scanHex_escape (by omega) _, ?_⟩
        rw [CodePoint.isLow, CodePoint.val_ofNat (by omega), decide_eq_false_iff_not]
        omega
    · obtain rfl : c = backslash := (List.cons.inj ha).1
      exact absurd hs (by decide)

/-- No high surrogate stands directly before a low one. -/
def Unpaired (s : Str) : Prop := s.IsChain fun c d => ¬ (c.isHigh = true ∧ d.isLow = true)

instance (s : Str) : Decidable (Unpaired s) := inferInstanceAs (Decidable (List.IsChain _ s))

theorem scanLiteral_escape (ascii : Bool) {s : Str} (hs : ascii = true → Unpaired s) (rest : Str) {fuel : Nat} (hf : s.length < fuel) :
    scanLiteral fuel (s.flatMap (escape ascii) ++ quote :: rest) = some (s, rest) := by
  induction s generalizing fuel with
  | nil =>
    obtain ⟨fuel, rfl⟩ := Nat.exists_eq_succ_of_ne_zero (show fuel ≠ 0 by omega)
    rfl
  | cons c s ih =>
    obtain ⟨fuel, rfl⟩ := Nat.exists_eq_succ_of_ne_zero (show fuel ≠ 0 by omega)
    have hrest := ih (fun ha => (hs ha).tail) (show s.length < fuel by simp only [List.length_cons] at hf; omega)
    have hclear : ascii = true → c.isHigh = true → Clear (s.flatMap (escape ascii) ++ quote :: rest) := by
      rintro rfl hhigh
      cases s with
      | nil => exact clear_quote rest
      | cons d s =>
        have hlow : d.isLow = false := by
          have hpair := (List.isChain_cons_cons.mp (hs rfl)).1
          simpa [hhigh] using hpair
        rw [List.flatMap_cons, List.append_assoc]
        exact clear_escape hlow _
    rw [List.flatMap_cons, List.append_assoc, scanLiteral, scanChar_escape ascii c hclear]
    simp only [hrest, Option.map_some]

/-! ### Numbers -/

/-- Nothing next that would go on a number. -/
def Stops (rest : Str) : Prop := ∀ c ∈ rest.head?, isDigit c = false ∧ c ≠ point ∧ c ≠ 0x65 ∧ c ≠ 0x45

def IsDigits (s : Str) : Prop := s ≠ [] ∧ ∀ c ∈ s, isDigit c = true

def IsWhole (s : Str) : Prop := IsDigits s ∧ (s.head? = some 0x30 → s = [0x30])

def IsFraction (s : Str) : Prop := s = [] ∨ ∃ digits, IsDigits digits ∧ s = point :: digits

def IsExponent (s : Str) : Prop :=
  s = [] ∨ ∃ e sign digits, (e = 0x65 ∨ e = 0x45) ∧ (sign = [] ∨ sign = [0x2B] ∨ sign = [minus]) ∧ IsDigits digits ∧
    s = e :: (sign ++ digits)

/-- What `float.__repr__` promises of a float: a number with a fraction or an exponent, which reads as the float. -/
def ReadsBack {F : Type} [Runtime F] (x : F) : Prop :=
  (∃ sign whole fraction exponent, (sign = [] ∨ sign = [minus]) ∧ IsWhole whole ∧ IsFraction fraction ∧ IsExponent exponent ∧
    ¬ (fraction = [] ∧ exponent = []) ∧ Runtime.repr x = sign ++ (whole ++ (fraction ++ exponent))) ∧
  Runtime.ofText (Runtime.repr x) = .finite x

def DoubleReadsBack {F : Type} [Runtime F] : Double F → Prop
  | .finite x => ReadsBack x
  | _ => True

private theorem takeWhile_digits {digits rest : Str} (hd : IsDigits digits) (hr : ∀ c ∈ rest.head?, isDigit c = false) :
    (digits ++ rest).takeWhile isDigit = digits := by
  rw [List.takeWhile_append_of_pos hd.2]
  cases rest with
  | nil => rw [List.takeWhile_nil, List.append_nil]
  | cons c rest => rw [List.takeWhile_cons_of_neg (by simp [hr c rfl]), List.append_nil]

private theorem digits_cons {digits : Str} (hd : IsDigits digits) : ∃ d more, digits = d :: more ∧ isDigit d = true := by
  obtain ⟨d, more, rfl⟩ := List.exists_cons_of_ne_nil hd.1
  exact ⟨d, more, rfl, hd.2 d List.mem_cons_self⟩

private theorem ne_of_digit {c d : CodePoint} (hc : isDigit c = true) (hd : isDigit d = false) : c ≠ d := by
  rintro rfl
  exact absurd hc (by simp [hd])

private theorem exponent_stops {exponent rest : Str} (he : IsExponent exponent) (hr : Stops rest) :
    ∀ c ∈ (exponent ++ rest).head?, isDigit c = false ∧ c ≠ point := by
  obtain rfl | ⟨e, sign, digits, he, _, _, rfl⟩ := he
  · exact fun c hc => ⟨(hr c hc).1, (hr c hc).2.1⟩
  · intro c hc
    obtain rfl : e = c := by simpa using hc
    obtain rfl | rfl := he <;> decide

private theorem scanFraction_append {fraction exponent rest : Str} (hf : IsFraction fraction) (he : IsExponent exponent) (hr : Stops rest) :
    scanFraction (fraction ++ (exponent ++ rest)) = fraction := by
  have hstops := exponent_stops he hr
  obtain rfl | ⟨digits, hd, rfl⟩ := hf
  · rw [List.nil_append]
    cases hs : exponent ++ rest with
    | nil => rfl
    | cons c more =>
      rw [hs] at hstops
      rw [scanFraction, if_neg fun h => (hstops c rfl).2 h.1]
  · rw [List.cons_append, scanFraction, takeWhile_digits hd fun c hc => (hstops c hc).1, if_pos ⟨rfl, hd.1⟩]

private theorem scanExponent_append {exponent rest : Str} (he : IsExponent exponent) (hr : Stops rest) :
    scanExponent (exponent ++ rest) = exponent := by
  obtain rfl | ⟨e, sign, digits, he, hs, hd, rfl⟩ := he
  · cases rest with
    | nil => rfl
    | cons c rest =>
      have hc := hr c rfl
      rw [List.nil_append, scanExponent, if_neg]
      rintro ⟨h | h, _⟩
      · exact hc.2.2.1 h
      · exact hc.2.2.2 h
  · have hsign : scanSign (sign ++ (digits ++ rest)) = sign := by
      obtain rfl | rfl | rfl := hs
      · obtain ⟨d, more, rfl, hdigit⟩ := digits_cons hd
        rw [List.nil_append, List.cons_append, scanSign, if_neg]
        rintro (h | h)
        · exact ne_of_digit hdigit (by decide) h
        · exact ne_of_digit hdigit (by decide) h
      · rfl
      · rfl
    rw [List.cons_append, List.append_assoc, scanExponent]
    simp only [hsign]
    rw [List.drop_left, takeWhile_digits hd fun c hc => (hr c hc).1, if_pos ⟨he, hd.1⟩]

/-- A number is read up to its end. -/
private theorem scanNumber_parts {F : Type} [Runtime F] {sign whole fraction exponent rest : Str} (hs : sign = [] ∨ sign = [minus])
    (hw : IsWhole whole) (hf : IsFraction fraction) (he : IsExponent exponent) (hr : Stops rest) :
    scanNumber (F := F) (sign ++ (whole ++ (fraction ++ (exponent ++ rest)))) =
      if fraction = [] ∧ exponent = [] then
        if maxDigits < whole.length then none
        else some (.int (if sign = [] then digitsValue whole else -digitsValue whole), rest)
      else some (.float (Runtime.ofText (sign ++ whole ++ fraction ++ exponent)), rest) := by
  obtain ⟨d, more, rfl, hdigit⟩ := digits_cons hw.1
  have hsign : (if (sign ++ (d :: more ++ (fraction ++ (exponent ++ rest)))).head? = some minus then [minus] else []) = sign := by
    obtain rfl | rfl := hs
    · rw [List.nil_append, List.cons_append, List.head?_cons, if_neg fun h => ne_of_digit hdigit (by decide) (Option.some.inj h)]
    · rfl
  have hnext : ∀ c ∈ (fraction ++ (exponent ++ rest)).head?, isDigit c = false := by
    obtain rfl | ⟨digits, _, rfl⟩ := hf
    · exact fun c hc => (exponent_stops he hr c hc).1
    · intro c hc
      obtain rfl : point = c := by simpa using hc
      decide
  have hwhole : (if d = 0x30 then [d] else (d :: more ++ (fraction ++ (exponent ++ rest))).takeWhile isDigit) = d :: more := by
    split
    · next hzero =>
      subst hzero
      exact (hw.2 rfl).symm
    · exact takeWhile_digits hw.1 hnext
  unfold scanNumber
  simp only [hsign, List.drop_left]
  simp only [List.cons_append, hdigit, if_true]
  rw [← List.cons_append] at *
  simp only [hwhole, List.drop_left, scanFraction_append hf he hr, scanExponent_append he hr]
  by_cases hplain : fraction = [] ∧ exponent = []
  · obtain ⟨rfl, rfl⟩ := hplain
    rfl
  · rw [if_neg hplain, if_neg hplain]

private theorem constants_start {F : Type} : ∀ e ∈ constants (F := F), ∃ c t, e.1 = c :: t ∧ isDigit c = false ∧
    (c = minus → ∃ d u, t = d :: u ∧ isDigit d = false) := by
  intro e he
  simp only [constants, List.mem_cons, List.not_mem_nil, or_false] at he
  obtain rfl | rfl | rfl | rfl | rfl | rfl := he
  all_goals first
    | exact ⟨_, _, rfl, by decide, fun h => absurd h (by decide)⟩
    | exact ⟨_, _, rfl, by decide, fun _ => ⟨_, _, rfl, by decide⟩⟩

/-- A number is none of the constants. -/
private theorem scanScalar_number {F : Type} [Runtime F] {sign whole rest : Str} (hs : sign = [] ∨ sign = [minus]) (hw : IsWhole whole) :
    scanScalar (F := F) (sign ++ (whole ++ rest)) = scanNumber (sign ++ (whole ++ rest)) := by
  obtain ⟨d, more, rfl, hdigit⟩ := digits_cons hw.1
  have hnone : (constants (F := F)).find? (fun e => e.1.isPrefixOf (sign ++ (d :: more ++ rest))) = none := by
    rw [List.find?_eq_none]
    intro e he
    obtain ⟨c, t, hct, hc, hm⟩ := constants_start e he
    rw [hct]
    obtain rfl | rfl := hs
    · simp [List.isPrefixOf, Ne.symm (ne_of_digit hdigit hc)]
    · by_cases hminus : c = minus
      · obtain ⟨u, v, rfl, hu⟩ := hm hminus
        simp [List.isPrefixOf, Ne.symm (ne_of_digit hdigit hu)]
      · simp [List.isPrefixOf, hminus]
  rw [scanScalar, hnone]

/-! The digits of an int. -/

private theorem isDigit_ofChar {c : Char} (h : c.isDigit = true) : isDigit (CodePoint.ofChar c) = true := by
  obtain ⟨hlow, hhigh⟩ := Char.isDigit_iff_toNat.mp h
  simp only [Char.reduceToNat] at hlow hhigh
  exact decide_eq_true ⟨hlow, hhigh⟩

private theorem isWhole_toDigits (n : Nat) : IsWhole ((Nat.toDigits 10 n).map CodePoint.ofChar) := by
  refine ⟨⟨by simp [Nat.toDigits_ne_nil], ?_⟩, ?_⟩
  · intro c hc
    obtain ⟨d, hd, rfl⟩ := List.mem_map.mp hc
    exact isDigit_ofChar ((isNumeral_toDigits n).2.1 d hd)
  · intro hzero
    have hcanonical := (toDigits_eq_iff (isNumeral_toDigits n)).mp rfl
    have hhead : (Nat.toDigits 10 n).head? = some '0' := by
      rw [List.head?_map] at hzero
      obtain ⟨c, hc, hzero⟩ := Option.map_eq_some_iff.mp hzero
      rw [hc]
      congr 1
      apply Char.toNat_inj.mp
      have hval : (CodePoint.ofChar c).val = (0x30 : CodePoint).val := congrArg _ hzero
      exact hval
    rw [hcanonical hhead]
    rfl

private theorem digitsValue_toDigits (n : Nat) : digitsValue ((Nat.toDigits 10 n).map CodePoint.ofChar) = n := by
  have hfold : ∀ (digits : List Char) (front : Nat),
      (digits.map CodePoint.ofChar).foldl (fun n c => 10 * n + (c.val - 0x30)) front = Nat.ofDigitChars 10 digits front := by
    intro digits
    induction digits with
    | nil => intro front; rfl
    | cons c digits ih => intro front; exact ih _
  rw [digitsValue, hfold]
  exact (isNumeral_toDigits n).2.2

private theorem scanScalar_int {F : Type} [Runtime F] {n : Int} (h : (Nat.toDigits 10 n.natAbs).length ≤ maxDigits) {rest : Str}
    (hr : Stops rest) : scanScalar (F := F) (intRepr n ++ rest) = some (.int n, rest) := by
  have hw := isWhole_toDigits n.natAbs
  have hs : (if n < 0 then [minus] else [] : Str) = [] ∨ (if n < 0 then [minus] else [] : Str) = [minus] := by
    split
    · exact .inr rfl
    · exact .inl rfl
  have hread := scanNumber_parts (F := F) hs hw (.inl rfl) (.inl rfl) hr
  rw [List.nil_append, List.nil_append] at hread
  rw [intRepr, List.append_assoc, scanScalar_number hs hw, hread, if_pos ⟨rfl, rfl⟩, List.length_map,
    if_neg (Nat.not_lt.mpr h), digitsValue_toDigits]
  by_cases hneg : n < 0
  · rw [if_pos hneg, if_neg (List.cons_ne_nil _ _)]
    congr 3
    omega
  · rw [if_neg hneg, if_pos rfl]
    congr 3
    omega

private theorem scanScalar_float {F : Type} [Runtime F] {x : Double F} (hx : DoubleReadsBack x) {rest : Str} (hr : Stops rest) :
    scanScalar (floatText x ++ rest) = some (.float x, rest) := by
  cases x with
  | nan => rfl
  | infinity negative => cases negative <;> rfl
  | finite x =>
    obtain ⟨⟨sign, whole, fraction, exponent, hs, hw, hf, he, hne, hrepr⟩, hback⟩ := hx
    have hread := scanNumber_parts (F := F) hs hw hf he hr
    have hback : Runtime.ofText (F := F) (sign ++ whole ++ fraction ++ exponent) = .finite x := by
      rw [← hback, hrepr, List.append_assoc, List.append_assoc]
    rw [if_neg hne, hback] at hread
    rw [floatText, hrepr, List.append_assoc, List.append_assoc, List.append_assoc, scanScalar_number hs hw, hread]

/-! ### Values -/

variable {F : Type} [Runtime F]

mutual
/-- No int that is too long, no float that `repr` does not keep, no key twice, and with `ensure_ascii` no string with a split surrogate pair. -/
def Sound (ascii : Bool) : Json F → Prop
  | .int n => (Nat.toDigits 10 n.natAbs).length ≤ maxDigits
  | .float x => DoubleReadsBack x
  | .text s => ascii = true → Unpaired s
  | .array items => SoundItems ascii items
  | .object members => (members.map Prod.fst).Nodup ∧ SoundMembers ascii members
  | _ => True

def SoundItems (ascii : Bool) : List (Json F) → Prop
  | [] => True
  | v :: items => Sound ascii v ∧ SoundItems ascii items

def SoundMembers (ascii : Bool) : List (Str × Json F) → Prop
  | [] => True
  | (k, v) :: members => (ascii = true → Unpaired k) ∧ Sound ascii v ∧ SoundMembers ascii members
end

theorem soundMembers_iff {ascii : Bool} {members : List (Str × Json F)} :
    SoundMembers ascii members ↔ ∀ e ∈ members, (ascii = true → Unpaired e.1) ∧ Sound ascii e.2 := by
  induction members with
  | nil => simp [SoundMembers]
  | cons e members ih =>
    obtain ⟨k, v⟩ := e
    rw [SoundMembers, ih, List.forall_mem_cons, and_assoc]

mutual
theorem printable_of_sound {ascii : Bool} : (v : Json F) → Sound ascii v → printable v = true
  | .null, _ => rfl
  | .bool _, _ => rfl
  | .int n, hv => by
    rw [Sound] at hv
    exact decide_eq_true hv
  | .float _, _ => rfl
  | .text _, _ => rfl
  | .array items, hv => by
    rw [Sound] at hv
    exact printableItems_of_sound items hv
  | .object members, hv => by
    rw [Sound] at hv
    exact printableMembers_of_sound members hv.2

private theorem printableItems_of_sound {ascii : Bool} : (items : List (Json F)) → SoundItems ascii items → printableItems items = true
  | [], _ => rfl
  | v :: items, hs => by
    rw [SoundItems] at hs
    rw [printableItems, printable_of_sound v hs.1, printableItems_of_sound items hs.2, Bool.and_self]

private theorem printableMembers_of_sound {ascii : Bool} : (members : List (Str × Json F)) → SoundMembers ascii members → printableMembers members = true
  | [], _ => rfl
  | (k, v) :: members, hs => by
    rw [SoundMembers] at hs
    rw [printableMembers, printable_of_sound v hs.2.1, printableMembers_of_sound members hs.2.2, Bool.and_self]
end

private theorem assign_new {υ : Type} (k : Str) (v : υ) (d : List (Str × υ)) (h : k ∉ d.map Prod.fst) : assign k v d = d ++ [(k, v)] := by
  induction d with
  | nil => rfl
  | cons e d ih =>
    rw [List.map_cons, List.mem_cons, not_or] at h
    rw [assign, if_neg fun he => h.1 he.symm, ih h.2, List.cons_append]

/-- Members with different keys make the dictionary that they are. -/
theorem foldl_assign {υ : Type} (members d : List (Str × υ)) (h : ((d ++ members).map Prod.fst).Nodup) :
    members.foldl (fun d e => assign e.1 e.2 d) d = d ++ members := by
  induction members generalizing d with
  | nil => rw [List.foldl_nil, List.append_nil]
  | cons e members ih =>
    have hnew : e.1 ∉ d.map Prod.fst := by
      rw [List.map_append, List.nodup_append] at h
      intro hmem
      exact h.2.2 e.1 hmem e.1 (by simp) rfl
    rw [List.foldl_cons, assign_new e.1 e.2 d hnew, ih (d ++ [e]) (by rw [List.append_assoc]; exact h), List.append_assoc]
    rfl

private theorem stops_of_ne {c : CodePoint} {rest : Str} (h : c = comma ∨ c = closeBracket ∨ c = closeBrace) : Stops (c :: rest) := by
  intro d hd
  obtain rfl : c = d := Option.some.inj hd
  obtain rfl | rfl | rfl := h <;> decide

private theorem skipBlanks_cons {c : CodePoint} {rest : Str} (h : isBlank c = false) : skipBlanks (c :: rest) = c :: rest :=
  List.dropWhile_cons_of_neg (by simp [h])

private theorem intRepr_head (n : Int) : ∃ c t, intRepr n = c :: t ∧ (isDigit c = true ∨ c = minus) := by
  obtain ⟨d, more, hd, hdigit⟩ := digits_cons (isWhole_toDigits n.natAbs).1
  by_cases hneg : n < 0
  · exact ⟨minus, d :: more, by rw [intRepr, if_pos hneg, hd, List.singleton_append], .inr rfl⟩
  · exact ⟨d, more, by rw [intRepr, if_neg hneg, hd, List.nil_append], .inl hdigit⟩

/-- A character that may start a scalar: no blank, no quote, and no bracket that means something where a value does. -/
def ScalarHead (c : CodePoint) : Prop :=
  isBlank c = false ∧ c ≠ quote ∧ c ≠ openBrace ∧ c ≠ openBracket ∧ c ≠ closeBracket ∧ c.isAscii = true

instance (c : CodePoint) : Decidable (ScalarHead c) := inferInstanceAs (Decidable (_ ∧ _))

private theorem scalarHead_number {c : CodePoint} (h : isDigit c = true ∨ c = minus) : ScalarHead c := by
  obtain h | rfl := h
  · refine ⟨?_, ne_of_digit h (by decide), ne_of_digit h (by decide), ne_of_digit h (by decide), ne_of_digit h (by decide), ?_⟩
    · simp only [isDigit, decide_eq_true_eq] at h
      simp only [isBlank, decide_eq_false_iff_not]
      omega
    · simp only [isDigit, decide_eq_true_eq] at h
      simp only [CodePoint.isAscii, decide_eq_true_eq]
      omega
  · decide

/-- A scalar as it is written, and how it is read back. -/
private theorem scalar_written (ascii : Bool) {v : Json F} (hv : Sound ascii v)
    (hscalar : ∀ s items members, v ≠ .text s ∧ v ≠ .array items ∧ v ≠ .object members) :
    ∃ c t, dumps ascii v = c :: t ∧ ScalarHead c ∧ ∀ {rest : Str}, Stops rest → scanScalar (dumps ascii v ++ rest) = some (v, rest) := by
  cases v with
  | null => exact ⟨_, _, rfl, by decide, fun _ => rfl⟩
  | bool b => cases b <;> exact ⟨_, _, rfl, by decide, fun _ => rfl⟩
  | int n =>
    obtain ⟨c, t, hct, hc⟩ := intRepr_head n
    refine ⟨c, t, by rw [dumps, hct], scalarHead_number hc, fun hr => ?_⟩
    rw [dumps]
    exact scanScalar_int (by rw [Sound] at hv; exact hv) hr
  | float x =>
    have hhead : ∃ c t, floatText x = c :: t ∧ ScalarHead c := by
      cases x with
      | nan => exact ⟨_, _, rfl, by decide⟩
      | infinity negative => cases negative <;> exact ⟨_, _, rfl, by decide⟩
      | finite x =>
        rw [Sound] at hv
        obtain ⟨⟨sign, whole, fraction, exponent, hs, hw, _, _, _, hrepr⟩, _⟩ := hv
        obtain ⟨d, more, rfl, hdigit⟩ := digits_cons hw.1
        rw [floatText, hrepr]
        obtain rfl | rfl := hs
        · exact ⟨d, _, rfl, scalarHead_number (.inl hdigit)⟩
        · exact ⟨minus, _, rfl, scalarHead_number (.inr rfl)⟩
    obtain ⟨c, t, hct, hc⟩ := hhead
    refine ⟨c, t, by rw [dumps, hct], hc, fun hr => ?_⟩
    rw [Sound] at hv
    rw [dumps]
    exact scanScalar_float hv hr
  | text s => exact absurd rfl (hscalar s [] []).1
  | array items => exact absurd rfl (hscalar [] items []).2.1
  | object members => exact absurd rfl (hscalar [] [] members).2.2

private theorem scanValue_scalar {c : CodePoint} (h : ScalarHead c) (rest : Str) (fuel : Nat) :
    scanValue (F := F) (fuel + 1) (c :: rest) = scanScalar (c :: rest) := by
  rw [scanValue, if_neg h.2.1, if_neg h.2.2.1, if_neg h.2.2.2.1]

/-- No value begins with a blank or a closing bracket. -/
private theorem dumps_head (ascii : Bool) {v : Json F} (hv : Sound ascii v) :
    ∃ c t, dumps ascii v = c :: t ∧ isBlank c = false ∧ c ≠ closeBracket ∧ c.isAscii = true := by
  by_cases hscalar : ∀ s items members, v ≠ .text s ∧ v ≠ .array items ∧ v ≠ .object members
  · obtain ⟨c, t, hct, hc, _⟩ := scalar_written ascii hv hscalar
    exact ⟨c, t, hct, hc.1, hc.2.2.2.2⟩
  · cases v with
    | text s => exact ⟨_, _, by rw [dumps, literal], by decide, by decide, by decide⟩
    | array items => exact ⟨_, _, by rw [dumps], by decide, by decide, by decide⟩
    | object members => exact ⟨_, _, by rw [dumps], by decide, by decide, by decide⟩
    | _ => exact absurd (fun _ _ _ => ⟨by simp, by simp, by simp⟩) hscalar

private theorem moreItems_head (ascii : Bool) (items : List (Json F)) (rest : Str) :
    ∃ c t, dumpsMoreItems ascii items ++ rest = c :: t ∧ (c = comma ∨ c = closeBracket ∨ c = closeBrace) ∧ isBlank c = false := by
  cases items with
  | nil => exact ⟨_, _, by rw [dumpsMoreItems]; rfl, .inr (.inl rfl), by decide⟩
  | cons v items => exact ⟨_, _, by rw [dumpsMoreItems, List.cons_append], .inl rfl, by decide⟩

private theorem moreMembers_head (ascii : Bool) (members : List (Str × Json F)) (rest : Str) :
    ∃ c t, dumpsMoreMembers ascii members ++ rest = c :: t ∧ (c = comma ∨ c = closeBracket ∨ c = closeBrace) ∧ isBlank c = false := by
  cases members with
  | nil => exact ⟨_, _, by rw [dumpsMoreMembers]; rfl, .inr (.inr rfl), by decide⟩
  | cons e members => exact ⟨_, _, by rw [dumpsMoreMembers, List.cons_append], .inl rfl, by decide⟩

private theorem skipBlanks_dumps (ascii : Bool) {v : Json F} (hv : Sound ascii v) (rest : Str) :
    skipBlanks (dumps ascii v ++ rest) = dumps ascii v ++ rest := by
  obtain ⟨c, t, hct, hc, _⟩ := dumps_head ascii hv
  rw [hct, List.cons_append, skipBlanks_cons hc]

private theorem scanLiteral_literal (ascii : Bool) {s : Str} (hs : ascii = true → Unpaired s) (rest : Str) :
    ∃ t, literal ascii s ++ rest = quote :: t ∧ scanLiteral (t.length + 1) t = some (s, rest) := by
  have hle : s.length ≤ (s.flatMap (escape ascii)).length := by
    clear hs
    induction s with
    | nil => exact Nat.le_refl _
    | cons c s ih =>
      have hone : 1 ≤ (escape ascii c).length := by
        unfold escape
        split
        · simp
        · split
          · split <;> simp [unicodeEscape]
          · simp
      rw [List.flatMap_cons, List.length_append, List.length_cons]
      omega
  refine ⟨s.flatMap (escape ascii) ++ quote :: rest, by simp [literal], ?_⟩
  apply scanLiteral_escape ascii hs
  rw [List.length_append]
  omega

private theorem scalar_read (ascii : Bool) {v : Json F} (hv : Sound ascii v)
    (hscalar : ∀ s items members, v ≠ .text s ∧ v ≠ .array items ∧ v ≠ .object members) {rest : Str} (hr : Stops rest) (fuel : Nat) :
    scanValue (fuel + 1) (dumps ascii v ++ rest) = some (v, rest) := by
  obtain ⟨c, t, hct, hc, hread⟩ := scalar_written ascii hv hscalar
  have hscan := hread hr
  rw [hct, List.cons_append] at hscan ⊢
  rw [scanValue_scalar hc, hscan]

mutual
/-- A written value is read up to its end. -/
theorem scanValue_dumps (ascii : Bool) (v : Json F) (hv : Sound ascii v) {rest : Str} (hr : Stops rest) {fuel : Nat}
    (hf : (dumps ascii v).length < fuel) : scanValue fuel (dumps ascii v ++ rest) = some (v, rest) := by
  obtain ⟨fuel, rfl⟩ := Nat.exists_eq_succ_of_ne_zero (show fuel ≠ 0 by omega)
  cases v with
  | text s =>
    rw [Sound] at hv
    obtain ⟨t, ht, hscan⟩ := scanLiteral_literal ascii hv rest
    rw [dumps, ht, Nat.succ_eq_add_one, scanValue, if_pos rfl, hscan]
    rfl
  | array items =>
    rw [Sound] at hv
    rw [dumps, List.length_cons] at hf
    rw [dumps, List.cons_append, Nat.succ_eq_add_one, scanValue, if_neg (by decide), if_neg (by decide), if_pos rfl]
    cases items with
    | nil => rfl
    | cons v items =>
      rw [SoundItems] at hv
      rw [dumpsItems] at hf ⊢
      obtain ⟨c, t, hct, hc, hb, _⟩ := dumps_head ascii hv.1
      have hskip : skipBlanks (dumps ascii v ++ dumpsMoreItems ascii items ++ rest) = dumps ascii v ++ dumpsMoreItems ascii items ++ rest := by
        rw [List.append_assoc, skipBlanks_dumps ascii hv.1]
      have hopen : ¬ (dumps ascii v ++ dumpsMoreItems ascii items ++ rest).head? = some closeBracket := by
        rw [hct]
        exact fun h => hb (Option.some.inj h)
      rw [hskip, if_neg hopen, List.append_assoc, scanItems_dumps ascii v items hv.1 hv.2 (by omega)]
      rfl
  | object members =>
    rw [Sound] at hv
    rw [dumps, List.length_cons] at hf
    rw [dumps, List.cons_append, Nat.succ_eq_add_one, scanValue, if_neg (by decide), if_pos rfl]
    cases members with
    | nil => rfl
    | cons e members =>
      obtain ⟨k, v⟩ := e
      have hs := hv.2
      rw [SoundMembers] at hs
      rw [dumpsMembers] at hf ⊢
      have hskip : skipBlanks (literal ascii k ++ colon :: (dumps ascii v ++ dumpsMoreMembers ascii members) ++ rest) =
          literal ascii k ++ colon :: (dumps ascii v ++ dumpsMoreMembers ascii members) ++ rest := skipBlanks_cons (by decide)
      have hopen : ¬ (literal ascii k ++ colon :: (dumps ascii v ++ dumpsMoreMembers ascii members) ++ rest).head? = some closeBrace := by
        intro h
        exact absurd (Option.some.inj h) (by decide)
      rw [hskip, if_neg hopen, scanMembers_dumps ascii k v members hs.1 hs.2.1 hs.2.2 (by omega)]
      simp only [Option.map_some]
      rw [foldl_assign _ _ hv.1]
      rfl
  | null => exact scalar_read ascii hv (by simp) hr fuel
  | bool b => exact scalar_read ascii hv (by simp) hr fuel
  | int n => exact scalar_read ascii hv (by simp) hr fuel
  | float x => exact scalar_read ascii hv (by simp) hr fuel
termination_by fuel

theorem scanItems_dumps (ascii : Bool) (v : Json F) (items : List (Json F)) (hv : Sound ascii v) (hs : SoundItems ascii items) {rest : Str} {fuel : Nat}
    (hf : (dumps ascii v ++ dumpsMoreItems ascii items).length < fuel) :
    scanItems fuel (dumps ascii v ++ (dumpsMoreItems ascii items ++ rest)) = some (v :: items, rest) := by
  obtain ⟨fuel, rfl⟩ := Nat.exists_eq_succ_of_ne_zero (show fuel ≠ 0 by omega)
  obtain ⟨c, t, hct, hc, hblank⟩ := moreItems_head ascii items rest
  rw [List.length_append] at hf
  have hpos : 0 < (dumpsMoreItems ascii items).length := by cases items <;> rw [dumpsMoreItems] <;> simp
  have hfuel : (dumps ascii v).length < fuel := by omega
  have hvalue := scanValue_dumps ascii v hv (hct ▸ stops_of_ne hc) hfuel
  rw [Nat.succ_eq_add_one, scanItems, hvalue]
  cases items with
  | nil =>
    rw [dumpsMoreItems]
    rfl
  | cons w items =>
    rw [SoundItems] at hs
    rw [dumpsMoreItems, List.length_cons] at hf
    rw [dumpsMoreItems, List.cons_append]
    simp only [skipBlanks_cons (show isBlank comma = false by decide)]
    rw [if_neg (by decide), if_pos trivial, List.append_assoc, skipBlanks_dumps ascii hs.1,
      scanItems_dumps ascii w items hs.1 hs.2 (by omega)]
    rfl
termination_by fuel

theorem scanMembers_dumps (ascii : Bool) (k : Str) (v : Json F) (members : List (Str × Json F)) (hk : ascii = true → Unpaired k) (hv : Sound ascii v)
    (hs : SoundMembers ascii members) {rest : Str} {fuel : Nat}
    (hf : (literal ascii k ++ colon :: (dumps ascii v ++ dumpsMoreMembers ascii members)).length < fuel) :
    scanMembers fuel (literal ascii k ++ colon :: (dumps ascii v ++ dumpsMoreMembers ascii members) ++ rest) = some ((k, v) :: members, rest) := by
  obtain ⟨fuel, rfl⟩ := Nat.exists_eq_succ_of_ne_zero (show fuel ≠ 0 by omega)
  obtain ⟨c, t, hct, hc, hblank⟩ := moreMembers_head ascii members rest
  rw [List.length_append, List.length_cons, List.length_append] at hf
  obtain ⟨text, htext, hscan⟩ := scanLiteral_literal ascii hk (colon :: (dumps ascii v ++ (dumpsMoreMembers ascii members ++ rest)))
  have hfuel : (dumps ascii v).length < fuel := by omega
  have hvalue := scanValue_dumps ascii v hv (hct ▸ stops_of_ne hc) hfuel
  rw [List.append_assoc, List.cons_append, List.append_assoc, htext, Nat.succ_eq_add_one, scanMembers, if_pos rfl, hscan]
  simp only [skipBlanks_cons (show isBlank colon = false by decide), if_true, skipBlanks_dumps ascii hv, hvalue]
  cases members with
  | nil =>
    rw [dumpsMoreMembers]
    rfl
  | cons e members =>
    obtain ⟨j, w⟩ := e
    rw [SoundMembers] at hs
    rw [dumpsMoreMembers, List.length_cons] at hf
    rw [dumpsMoreMembers, List.cons_append]
    simp only [skipBlanks_cons (show isBlank comma = false by decide)]
    have hskip : skipBlanks (literal ascii j ++ colon :: (dumps ascii w ++ dumpsMoreMembers ascii members) ++ rest) =
        literal ascii j ++ colon :: (dumps ascii w ++ dumpsMoreMembers ascii members) ++ rest := skipBlanks_cons (by decide)
    rw [if_neg (by decide), if_pos trivial, hskip, scanMembers_dumps ascii j w members hs.1 hs.2.1 hs.2.2 (by omega)]
    rfl
termination_by fuel
end

/-- `json.loads(json.dumps(v))` is `v`. -/
theorem loads_dumps (ascii : Bool) {v : Json F} (hv : Sound ascii v) : loads (dumps ascii v) = some v := by
  obtain ⟨c, t, hct, hc, _, hascii⟩ := dumps_head ascii hv
  have hstops : Stops [] := fun _ h => absurd h (by simp)
  have hread := scanValue_dumps ascii v hv hstops (Nat.lt_succ_self _)
  have hskip := skipBlanks_dumps ascii hv []
  rw [List.append_nil] at hread hskip
  have hmark : (dumps ascii v).head? ≠ some 0xFEFF := by
    rw [hct]
    intro h
    obtain rfl := Option.some.inj h
    exact absurd hascii (by decide)
  rw [loads, if_neg hmark, hskip, hread]
  rfl

/-! ### The bytes of a written value -/

/-- An ASCII character that is not NUL. -/
def Plain (c : CodePoint) : Prop := 0 < c.val ∧ c.val < 0x80

instance (c : CodePoint) : Decidable (Plain c) := inferInstanceAs (Decidable (_ ∧ _))

private theorem plain_of_all {s : Str} (h : s.all (fun c => decide (Plain c)) = true) : ∀ c ∈ s, Plain c :=
  fun c hc => of_decide_eq_true (List.all_eq_true.mp h c hc)

private theorem plain_hexDigit {n : Nat} (h : n < 0x10) : Plain (hexDigit n) := by
  have hall : ∀ n : Fin 0x10, Plain (hexDigit n.val) := by decide
  exact hall ⟨n, h⟩

private theorem plain_unicodeEscape (n : Nat) : ∀ c ∈ unicodeEscape n, Plain c := by
  intro c hc
  simp only [unicodeEscape, List.mem_cons, List.not_mem_nil, or_false] at hc
  obtain rfl | rfl | rfl | rfl | rfl | rfl := hc
  · decide
  · decide
  all_goals exact plain_hexDigit (by omega)

private theorem plain_escape (c : CodePoint) : ∀ d ∈ escape true c, Plain d := by
  intro d hd
  unfold escape at hd
  cases hs : shortEscape? c with
  | some e =>
    rw [hs] at hd
    have he : Plain e := by
      unfold shortEscape? at hs
      repeat'
        split at hs
        · rw [← Option.some.inj hs]
          decide
      exact absurd hs (by simp)
    simp only [List.mem_cons, List.not_mem_nil, or_false] at hd
    obtain rfl | rfl := hd
    · decide
    · exact he
  | none =>
    rw [hs] at hd
    simp only at hd
    split at hd
    · split at hd
      · exact plain_unicodeEscape _ d hd
      · obtain hd | hd := List.mem_append.mp hd
        · exact plain_unicodeEscape _ d hd
        · exact plain_unicodeEscape _ d hd
    · next hesc =>
      rw [List.mem_singleton] at hd
      subst hd
      simp only [true_and, not_or, Nat.not_lt, Nat.not_le] at hesc
      exact ⟨by omega, by omega⟩

private theorem plain_literal (s : Str) : ∀ c ∈ literal true s, Plain c := by
  intro c hc
  simp only [literal, List.mem_cons, List.mem_append, List.mem_flatMap, List.not_mem_nil, or_false] at hc
  obtain rfl | ⟨d, _, hd⟩ | rfl := hc
  · decide
  · exact plain_escape d c hd
  · decide

private theorem plain_digits {s : Str} (h : ∀ c ∈ s, isDigit c = true) : ∀ c ∈ s, Plain c := by
  intro c hc
  have hd := h c hc
  simp only [isDigit, decide_eq_true_eq] at hd
  exact ⟨by omega, by omega⟩

private theorem plain_intRepr (n : Int) : ∀ c ∈ intRepr n, Plain c := by
  intro c hc
  obtain hc | hc := List.mem_append.mp hc
  · split at hc
    · rw [List.mem_singleton.mp hc]
      decide
    · exact absurd hc (by simp)
  · exact plain_digits (isWhole_toDigits n.natAbs).1.2 c hc

private theorem plain_floatText {x : Double F} (hx : DoubleReadsBack x) : ∀ c ∈ floatText x, Plain c := by
  intro c hc
  cases x with
  | nan => exact plain_of_all (s := str "NaN") (by decide) c hc
  | infinity negative =>
    cases negative with
    | false => exact plain_of_all (s := str "Infinity") (by decide) c hc
    | true => exact plain_of_all (s := str "-Infinity") (by decide) c hc
  | finite x =>
    obtain ⟨⟨sign, whole, fraction, exponent, hs, hw, hf, he, _, hrepr⟩, _⟩ := hx
    rw [floatText, hrepr, List.mem_append, List.mem_append, List.mem_append] at hc
    obtain hc | hc | hc | hc := hc
    · obtain rfl | rfl := hs
      · exact absurd hc (by simp)
      · rw [List.mem_singleton.mp hc]
        decide
    · exact plain_digits hw.1.2 c hc
    · obtain rfl | ⟨digits, hd, rfl⟩ := hf
      · exact absurd hc (by simp)
      · obtain rfl | hc := List.mem_cons.mp hc
        · decide
        · exact plain_digits hd.2 c hc
    · obtain rfl | ⟨e, sign, digits, he, hs, hd, rfl⟩ := he
      · exact absurd hc (by simp)
      · simp only [List.mem_cons, List.mem_append] at hc
        obtain rfl | hc | hc := hc
        · obtain rfl | rfl := he <;> decide
        · obtain rfl | rfl | rfl := hs
          · exact absurd hc (by simp)
          · rw [List.mem_singleton.mp hc]
            decide
          · rw [List.mem_singleton.mp hc]
            decide
        · exact plain_digits hd.2 c hc

mutual
/-- With `ensure_ascii` everything written is ASCII, and no NUL is. -/
theorem plain_dumps : (v : Json F) → Sound true v → ∀ c ∈ dumps true v, Plain c
  | .null, _ => by rw [dumps]; exact plain_of_all (by decide)
  | .bool true, _ => by rw [dumps]; exact plain_of_all (by decide)
  | .bool false, _ => by rw [dumps]; exact plain_of_all (by decide)
  | .int n, _ => by rw [dumps]; exact plain_intRepr n
  | .float x, hv => by
    rw [Sound] at hv
    rw [dumps]
    exact plain_floatText hv
  | .text s, _ => by rw [dumps]; exact plain_literal s
  | .array items, hv => by
    rw [Sound] at hv
    rw [dumps]
    exact List.forall_mem_cons.mpr ⟨by decide, plain_dumpsItems items hv⟩
  | .object members, hv => by
    rw [Sound] at hv
    rw [dumps]
    exact List.forall_mem_cons.mpr ⟨by decide, plain_dumpsMembers members hv.2⟩

private theorem plain_dumpsItems : (items : List (Json F)) → SoundItems true items → ∀ c ∈ dumpsItems true items, Plain c
  | [], _ => by rw [dumpsItems]; exact plain_of_all (by decide)
  | v :: items, hs => by
    rw [SoundItems] at hs
    rw [dumpsItems]
    exact List.forall_mem_append.mpr ⟨plain_dumps v hs.1, plain_dumpsMoreItems items hs.2⟩

private theorem plain_dumpsMoreItems : (items : List (Json F)) → SoundItems true items → ∀ c ∈ dumpsMoreItems true items, Plain c
  | [], _ => by rw [dumpsMoreItems]; exact plain_of_all (by decide)
  | v :: items, hs => by
    rw [SoundItems] at hs
    rw [dumpsMoreItems]
    exact List.forall_mem_cons.mpr ⟨by decide, List.forall_mem_append.mpr ⟨plain_dumps v hs.1, plain_dumpsMoreItems items hs.2⟩⟩

private theorem plain_dumpsMembers : (members : List (Str × Json F)) → SoundMembers true members → ∀ c ∈ dumpsMembers true members, Plain c
  | [], _ => by rw [dumpsMembers]; exact plain_of_all (by decide)
  | (k, v) :: members, hs => by
    rw [SoundMembers] at hs
    rw [dumpsMembers]
    exact List.forall_mem_append.mpr ⟨plain_literal k, List.forall_mem_cons.mpr ⟨by decide,
      List.forall_mem_append.mpr ⟨plain_dumps v hs.2.1, plain_dumpsMoreMembers members hs.2.2⟩⟩⟩

private theorem plain_dumpsMoreMembers : (members : List (Str × Json F)) → SoundMembers true members → ∀ c ∈ dumpsMoreMembers true members, Plain c
  | [], _ => by rw [dumpsMoreMembers]; exact plain_of_all (by decide)
  | (k, v) :: members, hs => by
    rw [SoundMembers] at hs
    rw [dumpsMoreMembers]
    exact List.forall_mem_cons.mpr ⟨by decide, List.forall_mem_append.mpr ⟨plain_literal k, List.forall_mem_cons.mpr ⟨by decide,
      List.forall_mem_append.mpr ⟨plain_dumps v hs.2.1, plain_dumpsMoreMembers members hs.2.2⟩⟩⟩⟩
end

/-- Plain bytes are taken for UTF-8. -/
private theorem decodeBytes_plain {data : List UInt8} (h : ∀ b ∈ data, 0 < b.toNat ∧ b.toNat < 0x80) : decodeBytes data = decodeUtf8 data := by
  have hbyte : ∀ i, i < data.length → ((data[i]?).getD 0).toNat ≠ 0 := by
    intro i hi
    rw [List.getElem?_eq_getElem hi, Option.getD_some]
    have := (h _ (List.getElem_mem hi)).1
    omega
  have hhead : ∀ b rest, ¬ (0 < b.toNat ∧ b.toNat < 0x80) → (b :: rest).isPrefixOf data = false := by
    intro b rest hb
    cases data with
    | nil => rfl
    | cons a data =>
      have hne : b ≠ a := by
        rintro rfl
        exact hb (h b List.mem_cons_self)
      simp [List.isPrefixOf, hne]
  unfold decodeBytes
  simp only [hhead 0x00 _ (by decide), hhead 0xFF _ (by decide), hhead 0xFE _ (by decide), hhead 0xEF _ (by decide), Bool.false_eq_true,
    if_false]
  split
  · rw [if_neg (hbyte 0 (by omega)), if_neg (hbyte 1 (by omega))]
  · split
    · rw [if_neg (hbyte 0 (by omega)), if_neg (hbyte 1 (by omega))]
    · rfl

/-- `json.loads` reads the bytes of what `json.dumps` wrote. -/
theorem loadsBytes_dumps {v : Json F} (hv : Sound true v) : ∃ data, encodeUtf8 (dumps true v) = some data ∧ loadsBytes data = some v := by
  have hplain := plain_dumps v hv
  have hencode := encodeUtf8_ascii fun c hc => decide_eq_true (hplain c hc).2
  refine ⟨_, hencode, ?_⟩
  have hbytes : ∀ b ∈ (dumps true v).map fun c => UInt8.ofNat c.val, 0 < b.toNat ∧ b.toNat < 0x80 := by
    intro b hb
    obtain ⟨c, hc, rfl⟩ := List.mem_map.mp hb
    have hc := hplain c hc
    have hval : (UInt8.ofNat c.val).toNat = c.val := by
      rw [UInt8.toNat_ofNat', Nat.mod_eq_of_lt (by have := hc.2; omega)]
    rw [hval]
    exact hc
  rw [loadsBytes, decodeBytes_plain hbytes, decodeUtf8_of_encode hencode, Option.bind_some, loads_dumps true hv]

end NetherNet.Library.Json
