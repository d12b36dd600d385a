import NetherNet.Library.Decimal
import NetherNet.Protocol.NetworkId

/-! The signaling message codec: an identifier, a connection id and the rest of
the text, separated by the first two spaces. -/
namespace NetherNet
open Library

/-- The four message kinds, with the data each carries. -/
inductive SignalingMessage where
  | connectRequest (connectionId : Nat) (sdp : Text)
  | connectResponse (connectionId : Nat) (sdp : Text)
  | candidateAdd (connectionId : Nat) (candidate : Text)
  | connectError (connectionId : Nat) (error : ErrorCode)
  deriving DecidableEq, Repr

namespace SignalingMessage

def connectionId : SignalingMessage → Nat
  | connectRequest k _ | connectResponse k _ | candidateAdd k _ | connectError k _ => k

/-- `str(int)`. -/
def decimalInt (n : Int) : Text :=
  if n < 0 then '-' :: decimal n.natAbs else decimal n.natAbs

/-- The identifiers, by the message class they select. -/
inductive Identifier where
  | connectRequest | connectResponse | candidateAdd | connectError
  deriving DecidableEq, Repr

def Identifier.text : Identifier → Text
  | connectRequest => "CONNECTREQUEST".toList
  | connectResponse => "CONNECTRESPONSE".toList
  | candidateAdd => "CANDIDATEADD".toList
  | connectError => "CONNECTERROR".toList

/-- `_BY_IDENTIFIER.get(identifier)`. -/
def byIdentifier (token : Text) : Option Identifier :=
  [.connectRequest, .connectResponse, .candidateAdd, .connectError].find? (fun i => i.text = token)

def identifier : SignalingMessage → Identifier
  | connectRequest _ _ => .connectRequest
  | connectResponse _ _ => .connectResponse
  | candidateAdd _ _ => .candidateAdd
  | connectError _ _ => .connectError

/-- The third token. -/
def data : SignalingMessage → Text
  | connectRequest _ d | connectResponse _ d | candidateAdd _ d => d
  | connectError _ e => decimalInt e.toInt

/-- `f"{IDENTIFIER} {connection_id} {data}"`. -/
def serialize (m : SignalingMessage) : Text :=
  m.identifier.text ++ ' ' :: (decimal m.connectionId ++ ' ' :: m.data)

/-- What comes before the first space and what comes after it. -/
def splitSpace : Text → Option (Text × Text)
  | [] => none
  | c :: rest => if c = ' ' then some ([], rest) else (splitSpace rest).map (fun p => (c :: p.1, p.2))

/-- `_tokenize`. -/
def tokenize (message : Text) : Option (Text × Text × Text) :=
  (splitSpace message).bind fun first => (splitSpace first.2).map fun second => (first.1, second.1, second.2)

/-- `_parse_u64`; the outer option is the ValueError of `int`. -/
def parseU64 (token : Text) : Option (Option Nat) :=
  if token = [] ∨ ¬ isDecimal token then some none
  else (pyInt token).map fun value => if value ≤ u64Max then some value else none

/-- `_parse_int`; the outer option is the ValueError of `int`. -/
def parseInt (token : Text) : Option (Option Int) :=
  let negative := token.head? = some '-'
  let body := if negative then token.tail else token
  if body = [] ∨ ¬ isDecimal body then some none
  else (pyInt body).map fun value => some (if negative then -(value : Int) else value)

/-- `parse`: nothing where it raises ValueError, `some none` where the text is rejected. -/
def parse (message : Text) : Option (Option SignalingMessage) :=
  match tokenize message with
  | none => some none
  | some (identifier, connectionToken, d) =>
    match byIdentifier identifier with
    | none => some none
    | some cls =>
      match parseU64 connectionToken with
      | none => none
      | some none => some none
      | some (some k) =>
        match cls with
        | .connectError =>
          match parseInt d with
          | none => none
          | some none => some none
          | some (some error) => some (some (.connectError k (.ofInt error)))
        | .connectRequest => some (some (.connectRequest k d))
        | .connectResponse => some (some (.connectResponse k d))
        | .candidateAdd => some (some (.candidateAdd k d))

theorem splitSpace_append {front : Text} (rest : Text) (h : ' ' ∉ front) :
    splitSpace (front ++ ' ' :: rest) = some (front, rest) := by
  induction front with
  | nil => rfl
  | cons c front ih =>
    simp only [List.mem_cons, not_or] at h
    have hc : ¬ c = ' ' := fun e => h.1 e.symm
    rw [List.cons_append, splitSpace, if_neg hc, ih h.2]
    rfl

theorem space_notMem_identifier (i : Identifier) : ' ' ∉ i.text := by
  cases i <;> decide +kernel

theorem byIdentifier_text (i : Identifier) : byIdentifier i.text = some i := by
  cases i <;> decide +kernel

theorem tokenize_serialize (m : SignalingMessage) :
    tokenize m.serialize = some (m.identifier.text, decimal m.connectionId, m.data) := by
  rw [tokenize, serialize, splitSpace_append _ (space_notMem_identifier _)]
  simp only [Option.bind_some, splitSpace_append _ (space_notMem_decimal _), Option.map_some]

theorem parseU64_decimal {n : Nat} (h : n ≤ u64Max) : parseU64 (decimal n) = some (some n) := by
  have hd : ¬ (decimal n = [] ∨ ¬ isDecimal (decimal n) = true) := by
    simp [decimal_ne_nil, isDecimal_decimal]
  rw [parseU64, if_neg hd, pyInt_decimal (decimal_length_of_u64 h), Option.map_some, if_pos h]

/-- A message that carries its data as it is reads back as itself. -/
theorem parse_serialize {m : SignalingMessage} (hk : m.connectionId ≤ u64Max)
    (hm : m.identifier ≠ .connectError) : parse m.serialize = some (some m) := by
  unfold parse
  simp only [tokenize_serialize, byIdentifier_text, parseU64_decimal hk]
  cases m with
  | connectError k e => exact absurd rfl hm
  | connectRequest k d => rfl
  | connectResponse k d => rfl
  | candidateAdd k d => rfl

private theorem parseU64_decimal_eq {n k : Nat} (h : parseU64 (decimal n) = some (some k)) : k = n := by
  have hd : ¬ (decimal n = [] ∨ ¬ isDecimal (decimal n) = true) := by
    simp [decimal_ne_nil, isDecimal_decimal]
  rw [parseU64, if_neg hd] at h
  by_cases hlen : (decimal n).length ≤ maxStrDigits
  · rw [pyInt_decimal hlen, Option.map_some] at h
    split at h
    · exact (Option.some.inj (Option.some.inj h)).symm
    · cases h
  · rw [pyInt, if_neg hlen] at h
    cases h

/-- A text that was serialized reads back, if at all, as a message of its kind, and but
for the errors as the message it was. -/
theorem of_parse_serialize {m m' : SignalingMessage} (h : parse m.serialize = some (some m')) :
    m'.identifier = m.identifier ∧ (m.identifier ≠ .connectError → m' = m) := by
  unfold parse at h
  simp only [tokenize_serialize, byIdentifier_text] at h
  split at h
  · cases h
  · cases h
  · next k hk =>
    obtain rfl := parseU64_decimal_eq hk
    cases m with
    | connectError k e =>
      simp only [identifier, data] at h
      split at h
      · cases h
      · cases h
      · cases h
        exact ⟨rfl, fun hne => absurd rfl hne⟩
    | connectRequest k d => cases h; exact ⟨rfl, fun _ => rfl⟩
    | connectResponse k d => cases h; exact ⟨rfl, fun _ => rfl⟩
    | candidateAdd k d => cases h; exact ⟨rfl, fun _ => rfl⟩

/-- The text determines the data. -/
theorem data_eq_of_serialize {m m' : SignalingMessage} (h : m.serialize = m'.serialize) : m.data = m'.data := by
  have ht := congrArg tokenize h
  rw [tokenize_serialize, tokenize_serialize] at ht
  simp only [Option.some.injEq, Prod.mk.injEq] at ht
  exact ht.2.2

/-! ### What is accepted, and what is sent for it -/

/-- `==` of two messages, which compares their errors as ints. -/
def equal : SignalingMessage → SignalingMessage → Bool
  | connectRequest k d, connectRequest k' d' => k == k' && d == d'
  | connectResponse k d, connectResponse k' d' => k == k' && d == d'
  | candidateAdd k d, candidateAdd k' d' => k == k' && d == d'
  | connectError k e, connectError k' e' => k == k' && e.toInt == e'.toInt
  | _, _ => false

/-- `str` raises ValueError on an int of more digits. -/
def Printable (z : Int) : Prop := (decimal z.natAbs).length ≤ maxStrDigits

instance (z : Int) : Decidable (Printable z) := inferInstanceAs (Decidable (_ ≤ _))

/-- The ints of a message can be printed. -/
def HasPrintableInts : SignalingMessage → Prop
  | connectRequest k _ | connectResponse k _ | candidateAdd k _ => Printable k
  | connectError k e => Printable k ∧ Printable e.toInt

instance (m : SignalingMessage) : Decidable m.HasPrintableInts :=
  match m with
  | connectRequest k _ | connectResponse k _ | candidateAdd k _ => inferInstanceAs (Decidable (Printable k))
  | connectError _ _ => inferInstanceAs (Decidable (_ ∧ _))

/-- `serialize`, or nothing where it raises. -/
def serialize? (m : SignalingMessage) : Option Text := if m.HasPrintableInts then some m.serialize else none

/-- The data as it may be spelled: an error as any int numeral, a text as it is. -/
def Reads (data : Text) : SignalingMessage → Prop
  | connectError _ e => IsIntNumeral data e.toInt
  | connectRequest _ d | connectResponse _ d | candidateAdd _ d => data = d

/-- An identifier, a space, a u64 numeral, a space and the data. -/
def Spells (text : Text) (m : SignalingMessage) : Prop :=
  ∃ token data, text = m.identifier.text ++ ' ' :: (token ++ ' ' :: data) ∧ IsNumeral token m.connectionId ∧
    m.connectionId ≤ u64Max ∧ Reads data m

/-- The numeral after an optional sign. -/
def unsigned (token : Text) : Text := if token.head? = some '-' then token.tail else token

/-- The numeric tokens are short enough for `int`. -/
def ShortTokens (text : Text) : Prop :=
  ∀ identifier token data, tokenize text = some (identifier, token, data) →
    token.length ≤ maxStrDigits ∧ (byIdentifier identifier = some .connectError → (unsigned data).length ≤ maxStrDigits)

/-- The numeric tokens are spelled as they are printed. -/
def CanonicalTokens (text : Text) : Prop :=
  ∀ identifier token data, tokenize text = some (identifier, token, data) →
    Canonical token ∧ (byIdentifier identifier = some .connectError → CanonicalInt data)

private theorem splitSpace_some {text front rest : Text} (h : splitSpace text = some (front, rest)) :
    text = front ++ ' ' :: rest ∧ ' ' ∉ front := by
  induction text generalizing front with
  | nil => cases h
  | cons c text ih =>
    rw [splitSpace] at h
    split at h
    · next hc =>
      cases h
      exact ⟨by rw [hc]; rfl, List.not_mem_nil⟩
    · next hc =>
      obtain ⟨p, hp, heq⟩ := Option.map_eq_some_iff.mp h
      cases heq
      obtain ⟨htext, hfront⟩ := ih hp
      refine ⟨by rw [List.cons_append, ← htext], ?_⟩
      rintro (_ | ⟨_, hmem⟩)
      · exact hc rfl
      · exact hfront hmem

theorem tokenize_iff {text identifier token data : Text} :
    tokenize text = some (identifier, token, data) ↔
      text = identifier ++ ' ' :: (token ++ ' ' :: data) ∧ ' ' ∉ identifier ∧ ' ' ∉ token := by
  constructor
  · intro h
    obtain ⟨first, hfirst, h⟩ := Option.bind_eq_some_iff.mp h
    obtain ⟨second, hsecond, heq⟩ := Option.map_eq_some_iff.mp h
    cases heq
    obtain ⟨htext, hidentifier⟩ := splitSpace_some hfirst
    obtain ⟨hrest, htoken⟩ := splitSpace_some hsecond
    exact ⟨by rw [htext, hrest], hidentifier, htoken⟩
  · rintro ⟨rfl, hidentifier, htoken⟩
    rw [tokenize, splitSpace_append _ hidentifier, Option.bind_some, splitSpace_append _ htoken, Option.map_some]

theorem byIdentifier_iff {token : Text} {i : Identifier} : byIdentifier token = some i ↔ token = i.text := by
  constructor
  · intro h
    unfold byIdentifier at h
    have hfound := List.find?_some h
    exact (of_decide_eq_true hfound).symm
  · rintro rfl
    exact byIdentifier_text i

theorem isDecimal_iff {token : Text} : ¬ (token = [] ∨ ¬ isDecimal token) ↔ IsNumeral token (Nat.ofDigitChars 10 token 0) := by
  simp [isDecimal, IsNumeral, List.all_eq_true]

/-- A numeral has no spaces. -/
private theorem space_notMem_numeral {token : Text} {n : Nat} (h : IsNumeral token n) : ' ' ∉ token := fun hmem =>
  absurd (h.2.1 ' ' hmem) (by decide)

private theorem pyInt_eq_some {digits : Text} {n : Nat} (h : pyInt digits = some n) : Nat.ofDigitChars 10 digits 0 = n := by
  unfold pyInt at h
  split at h
  · exact Option.some.inj h
  · cases h

theorem parseU64_some {token : Text} {k : Nat} (h : parseU64 token = some (some k)) : IsNumeral token k ∧ k ≤ u64Max := by
  unfold parseU64 at h
  split at h
  · cases h
  · next hnum =>
    obtain ⟨value, hvalue, h⟩ := Option.map_eq_some_iff.mp h
    split at h
    · next hle =>
      cases h
      exact ⟨pyInt_eq_some hvalue ▸ isDecimal_iff.mp hnum, hle⟩
    · cases h

private theorem parseU64_iff {token : Text} {k : Nat} (hshort : token.length ≤ maxStrDigits) :
    parseU64 token = some (some k) ↔ IsNumeral token k ∧ k ≤ u64Max := by
  refine ⟨parseU64_some, ?_⟩
  rintro ⟨⟨hne, hd, rfl⟩, hle⟩
  have hnum : ¬ (token = [] ∨ ¬ isDecimal token = true) := by simpa [hne, isDecimal, List.all_eq_true] using hd
  rw [parseU64, if_neg hnum, pyInt, if_pos hshort, Option.map_some, if_pos hle]

private theorem parseU64_short {token : Text} (hshort : token.length ≤ maxStrDigits) : parseU64 token ≠ none := by
  unfold parseU64
  split
  · exact Option.some_ne_none _
  · rw [pyInt, if_pos hshort]
    exact Option.some_ne_none _

private theorem isIntNumeral_iff {token : Text} {z : Int} :
    IsIntNumeral token z ↔ ∃ n : Nat, IsNumeral (unsigned token) n ∧ z = if token.head? = some '-' then -(n : Int) else n := by
  constructor
  · rintro ⟨digits, n, hnum, ⟨rfl, rfl⟩ | ⟨rfl, rfl⟩⟩
    · exact ⟨n, by rwa [unsigned, if_neg hnum.head_ne], by rw [if_neg hnum.head_ne]⟩
    · exact ⟨n, hnum, rfl⟩
  · rintro ⟨n, hnum, rfl⟩
    unfold unsigned at hnum
    split at hnum
    · next hsign =>
      obtain ⟨digits, rfl⟩ : ∃ digits, token = '-' :: digits := by
        cases token with
        | nil => cases hsign
        | cons c digits => exact ⟨digits, by rw [Option.some.inj hsign]⟩
      exact ⟨digits, n, hnum, .inr ⟨rfl, rfl⟩⟩
    · next hsign => exact ⟨token, n, hnum, .inl ⟨rfl, by rw [if_neg hsign]⟩⟩

theorem parseInt_eq (token : Text) : parseInt token =
    if unsigned token = [] ∨ ¬ isDecimal (unsigned token) then some none
    else (pyInt (unsigned token)).map fun value : Nat => some (if token.head? = some '-' then -(value : Int) else (value : Int)) := by
  have hbody : (if token.head? = some '-' then token.tail else token) = unsigned token := rfl
  simp only [parseInt, hbody]
  cases pyInt (unsigned token) with
  | none => simp
  | some value => simp

theorem parseInt_some {token : Text} {z : Int} (h : parseInt token = some (some z)) : IsIntNumeral token z := by
  rw [parseInt_eq] at h
  rw [isIntNumeral_iff]
  split at h
  · cases h
  · next hnum =>
    obtain ⟨value, hvalue, h⟩ := Option.map_eq_some_iff.mp h
    exact ⟨value, pyInt_eq_some hvalue ▸ isDecimal_iff.mp hnum, (Option.some.inj h).symm⟩

private theorem parseInt_iff {token : Text} {z : Int} (hshort : (unsigned token).length ≤ maxStrDigits) :
    parseInt token = some (some z) ↔ IsIntNumeral token z := by
  refine ⟨parseInt_some, fun h => ?_⟩
  obtain ⟨n, ⟨hne, hd, rfl⟩, rfl⟩ := isIntNumeral_iff.mp h
  have hnum : ¬ (unsigned token = [] ∨ ¬ isDecimal (unsigned token) = true) := by simpa [hne, isDecimal, List.all_eq_true] using hd
  rw [parseInt_eq, if_neg hnum, pyInt, if_pos hshort, Option.map_some]

private theorem parseInt_short {token : Text} (hshort : (unsigned token).length ≤ maxStrDigits) : parseInt token ≠ none := by
  rw [parseInt_eq]
  split
  · exact Option.some_ne_none _
  · rw [pyInt, if_pos hshort]
    exact Option.some_ne_none _

private theorem isIntNumeral_decimalInt (z : Int) : IsIntNumeral (decimalInt z) z := by
  unfold decimalInt
  split
  · next hneg => exact ⟨_, z.natAbs, isNumeral_toDigits _, .inr ⟨rfl, by omega⟩⟩
  · next hpos => exact ⟨_, z.natAbs, isNumeral_toDigits _, .inl ⟨rfl, by omega⟩⟩

private theorem unsigned_decimalInt (z : Int) : unsigned (decimalInt z) = decimal z.natAbs := by
  unfold decimalInt
  split
  · rfl
  · exact if_neg (isNumeral_toDigits z.natAbs).head_ne

/-- An int is printed as its canonical numeral. -/
private theorem decimalInt_eq_iff {token : Text} {z : Int} (h : IsIntNumeral token z) : decimalInt z = token ↔ CanonicalInt token := by
  obtain ⟨digits, n, hnum, ⟨rfl, rfl⟩ | ⟨rfl, rfl⟩⟩ := h
  · rw [decimalInt, if_neg (by omega), CanonicalInt, if_neg hnum.head_ne, Int.natAbs_natCast, ← toDigits_eq_iff hnum, decimal]
  · rw [CanonicalInt, List.head?_cons, if_pos rfl, List.tail_cons]
    have hprinted := toDigits_eq_iff hnum
    by_cases hzero : n = 0
    · -- minus zero is printed without the sign
      subst hzero
      refine iff_of_false (fun hminus => by cases hminus) fun hhead => hhead ?_
      rw [← hprinted.mpr fun h => absurd h hhead]
      rfl
    · rw [decimalInt, if_pos (by omega), Int.natAbs_neg, Int.natAbs_natCast, List.cons.injEq, decimal, hprinted]
      refine ⟨fun hcanonical hhead => hzero ?_, fun hhead => ⟨rfl, fun h => absurd h hhead⟩⟩
      obtain ⟨_, _, hvalue⟩ := hnum
      rw [← hvalue, hcanonical.2 hhead]
      rfl

/-- The tokens of what was accepted. -/
theorem tokens_of_parse {text : Text} {m : SignalingMessage} (h : parse text = some (some m)) :
    ∃ token data, tokenize text = some (m.identifier.text, token, data) ∧ IsNumeral token m.connectionId ∧
      m.connectionId ≤ u64Max ∧ Reads data m := by
  unfold parse at h
  split at h
  · cases h
  · next identifier token data htokens =>
    split at h
    · cases h
    · next cls hcls =>
      rw [byIdentifier_iff.mp hcls] at htokens
      split at h
      · cases h
      · cases h
      · next k hk =>
        obtain ⟨hnum, hle⟩ := parseU64_some hk
        cases cls with
        | connectError =>
          simp only at h
          split at h
          · cases h
          · cases h
          · next error herror =>
            cases h
            have herror := parseInt_some herror
            exact ⟨token, data, htokens, hnum, hle, by rw [Reads, ErrorCode.toInt_ofInt]; exact herror⟩
        | connectRequest => cases h; exact ⟨token, data, htokens, hnum, hle, rfl⟩
        | connectResponse => cases h; exact ⟨token, data, htokens, hnum, hle, rfl⟩
        | candidateAdd => cases h; exact ⟨token, data, htokens, hnum, hle, rfl⟩

private theorem tokenize_of_spells {text token data : Text} {i : Identifier} {n : Nat}
    (h : text = i.text ++ ' ' :: (token ++ ' ' :: data)) (hnum : IsNumeral token n) :
    tokenize text = some (i.text, token, data) :=
  tokenize_iff.mpr ⟨h, space_notMem_identifier i, space_notMem_numeral hnum⟩

private theorem parse_of_spells {text : Text} {m : SignalingMessage} (hshort : ShortTokens text) (h : Spells text m) :
    ∃ m', parse text = some (some m') ∧ m'.equal m = true := by
  obtain ⟨token, data, htext, hnum, hle, hreads⟩ := h
  have htokens := tokenize_of_spells htext hnum
  obtain ⟨htoken, hdata⟩ := hshort _ _ _ htokens
  have hk := (parseU64_iff htoken).mpr ⟨hnum, hle⟩
  unfold parse
  simp only [htokens, byIdentifier_text, hk]
  cases m with
  | connectRequest k d => exact ⟨_, rfl, by simp [equal, connectionId, hreads.symm]⟩
  | connectResponse k d => exact ⟨_, rfl, by simp [equal, connectionId, hreads.symm]⟩
  | candidateAdd k d => exact ⟨_, rfl, by simp [equal, connectionId, hreads.symm]⟩
  | connectError k e =>
    have herror := (parseInt_iff (hdata (byIdentifier_text _))).mpr hreads
    simp only [identifier, herror]
    exact ⟨_, rfl, by simp [equal, connectionId]⟩

/-- Equal messages are spelled alike. -/
private theorem spells_of_equal {text : Text} {m m' : SignalingMessage} (he : m'.equal m = true) (h : Spells text m') :
    Spells text m := by
  cases m' <;> cases m <;> simp only [equal, Bool.and_eq_true, beq_iff_eq, reduceCtorEq] at he
  case connectError k' e' k e =>
    obtain ⟨token, data, htext, hnum, hle, hreads⟩ := h
    obtain ⟨rfl, hcode⟩ := he
    exact ⟨token, data, htext, hnum, hle, by rw [Reads, ← hcode]; exact hreads⟩
  all_goals
    obtain ⟨rfl, rfl⟩ := he
    exact h

private theorem parse_short {text : Text} (hshort : ShortTokens text) : parse text ≠ none := by
  unfold parse
  split
  · exact Option.some_ne_none _
  · next identifier token data htokens =>
    obtain ⟨htoken, hdata⟩ := hshort identifier token data htokens
    split
    · exact Option.some_ne_none _
    · next cls hcls =>
      split
      · next hnone => exact absurd hnone (parseU64_short htoken)
      · exact Option.some_ne_none _
      · cases cls with
        | connectError =>
          simp only
          split
          · next hnone => exact absurd hnone (parseInt_short (hdata hcls))
          · exact Option.some_ne_none _
          · exact Option.some_ne_none _
        | connectRequest => exact Option.some_ne_none _
        | connectResponse => exact Option.some_ne_none _
        | candidateAdd => exact Option.some_ne_none _

/-- The numeral of a printed int is no longer than the one that was read. -/
private theorem printable_of_numeral {data : Text} {z : Int} (h : IsIntNumeral data z)
    (hshort : (unsigned data).length ≤ maxStrDigits) : Printable z := by
  obtain ⟨n, hnum, rfl⟩ := isIntNumeral_iff.mp h
  have hle := Nat.le_trans (length_toDigits_le hnum) hshort
  unfold Printable
  split
  · rwa [Int.natAbs_neg, Int.natAbs_natCast]
  · rwa [Int.natAbs_natCast]

private theorem hasPrintableInts_of_reads {token data : Text} {m : SignalingMessage} (hnum : IsNumeral token m.connectionId)
    (htoken : token.length ≤ maxStrDigits) (hreads : Reads data m)
    (hdata : m.identifier = .connectError → (unsigned data).length ≤ maxStrDigits) : m.HasPrintableInts := by
  have hk : Printable m.connectionId := Nat.le_trans (length_toDigits_le hnum) htoken
  cases m with
  | connectError k e => exact ⟨hk, printable_of_numeral hreads (hdata rfl)⟩
  | connectRequest k d => exact hk
  | connectResponse k d => exact hk
  | candidateAdd k d => exact hk

/-- The data is printed as it was read exactly if it is canonical. -/
private theorem data_eq_iff {data : Text} {m : SignalingMessage} (hreads : Reads data m) :
    m.data = data ↔ (m.identifier = .connectError → CanonicalInt data) := by
  cases m with
  | connectError k e => exact (decimalInt_eq_iff hreads).trans ⟨fun hcanonical _ => hcanonical, fun hcanonical => hcanonical rfl⟩
  | connectRequest k d => exact iff_of_true hreads.symm (fun h => nomatch h)
  | connectResponse k d => exact iff_of_true hreads.symm (fun h => nomatch h)
  | candidateAdd k d => exact iff_of_true hreads.symm (fun h => nomatch h)

private theorem serialize_iff {text : Text} {m : SignalingMessage} (hshort : ShortTokens text) (h : parse text = some (some m)) :
    m.serialize? = some text ↔ CanonicalTokens text := by
  obtain ⟨token, data, htokens, hnum, _, hreads⟩ := tokens_of_parse h
  obtain ⟨htoken, hdata⟩ := hshort _ _ _ htokens
  simp only [byIdentifier_text, Option.some.injEq] at hdata
  rw [serialize?, if_pos (hasPrintableInts_of_reads hnum htoken hreads hdata), Option.some.injEq]
  have hsame : m.serialize = text ↔ decimal m.connectionId = token ∧ m.data = data := by
    constructor
    · intro heq
      rw [← heq, tokenize_serialize] at htokens
      simpa using htokens
    · rintro ⟨hid, hrest⟩
      rw [(tokenize_iff.mp htokens).1, serialize, hid, hrest]
  rw [hsame, decimal, toDigits_eq_iff hnum, data_eq_iff hreads]
  unfold CanonicalTokens
  simp only [htokens, Option.some.injEq, Prod.mk.injEq]
  constructor
  · rintro ⟨hid, hrest⟩ _ _ _ ⟨rfl, rfl, rfl⟩
    rw [byIdentifier_text, Option.some.injEq]
    exact ⟨hid, hrest⟩
  · intro hall
    have hcanonical := hall _ _ _ ⟨rfl, rfl, rfl⟩
    rw [byIdentifier_text, Option.some.injEq] at hcanonical
    exact hcanonical

private theorem parse_serialize? {m : SignalingMessage} (hk : m.connectionId ≤ u64Max) (hm : m.HasPrintableInts) :
    ∃ text m', m.serialize? = some text ∧ parse text = some (some m') ∧ m'.equal m = true := by
  have hshort : ShortTokens m.serialize := by
    intro identifier token data htokens
    rw [tokenize_serialize] at htokens
    simp only [Option.some.injEq, Prod.mk.injEq] at htokens
    obtain ⟨rfl, rfl, rfl⟩ := htokens
    refine ⟨decimal_length_of_u64 hk, fun hcls => ?_⟩
    cases m with
    | connectError k e =>
      rw [data, unsigned_decimalInt]
      exact hm.2
    | connectRequest k d => cases hcls
    | connectResponse k d => cases hcls
    | candidateAdd k d => cases hcls
  have hspells : Spells m.serialize m := by
    refine ⟨decimal m.connectionId, m.data, rfl, isNumeral_toDigits _, hk, ?_⟩
    cases m with
    | connectError k e => exact isIntNumeral_decimalInt e.toInt
    | connectRequest k d => rfl
    | connectResponse k d => rfl
    | candidateAdd k d => rfl
  obtain ⟨m', hparse, hequal⟩ := parse_of_spells hshort hspells
  exact ⟨m.serialize, m', if_pos hm, hparse, hequal⟩

/-- A message with a u64 id whose ints can be printed is read back as an equal one. A text
whose numeric tokens are short enough is accepted as exactly the messages that it spells,
and is what is sent for them exactly if its numeric tokens are canonical. -/
theorem parse_serialize_agree :
    (∀ m : SignalingMessage, m.connectionId ≤ u64Max → m.HasPrintableInts →
      ∃ text m', m.serialize? = some text ∧ parse text = some (some m') ∧ m'.equal m = true) ∧
    (∀ text, ShortTokens text → parse text ≠ none ∧
      ∀ m, (∃ m', parse text = some (some m') ∧ m'.equal m = true) ↔ Spells text m) ∧
    ∀ text m, ShortTokens text → parse text = some (some m) → (m.serialize? = some text ↔ CanonicalTokens text) := by
  refine ⟨fun m hk hm => parse_serialize? hk hm, fun text hshort => ⟨parse_short hshort, fun m => ⟨?_, parse_of_spells hshort⟩⟩,
    fun text m hshort h => serialize_iff hshort h⟩
  rintro ⟨m', hparse, hequal⟩
  obtain ⟨token, data, htokens, hnum, hle, hreads⟩ := tokens_of_parse hparse
  exact spells_of_equal hequal ⟨token, data, (tokenize_iff.mp htokens).1, hnum, hle, hreads⟩

/-- The error code 10^4300 has a digit too many for `str`. -/
theorem huge_error_not_sent :
    ¬ ∀ m : SignalingMessage, m.connectionId ≤ u64Max →
      ∃ text m', m.serialize? = some text ∧ parse text = some (some m') ∧ m'.equal m = true := by
  intro h
  obtain ⟨text, m', htext, _⟩ := h (.connectError 7 (.unknown (10 ^ 4300))) (by decide)
  have hprintable : Printable (10 ^ 4300) := by
    unfold serialize? at htext
    split at htext
    · next hm => exact hm.2
    · cases htext
  rw [Printable, decimal, Nat.length_toDigits_le_iff (by decide) (by decide), Int.natAbs_pow] at hprintable
  exact Nat.lt_irrefl _ hprintable

end SignalingMessage
end NetherNet
