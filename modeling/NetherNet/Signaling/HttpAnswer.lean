import NetherNet.Protocol.Uuid
import NetherNet.Transport.SdpLines

/-! HTTP signaling: what the reply to a POST of an offer comes to. A host that rejects the
offer answers 200 with the code of its error. -/
namespace NetherNet

/-- The first and the last character of each block of digits that are no decimal digits:
superscripts, numbers in circles and the like. -/
def otherDigits : List (Nat × Nat) :=
  [(0xB2, 0xB3), (0xB9, 0xB9), (0x1369, 0x1371), (0x19DA, 0x19DA), (0x2070, 0x2070), (0x2074, 0x2079), (0x2080, 0x2089),
   (0x2460, 0x2468), (0x2474, 0x247C), (0x2488, 0x2490), (0x24EA, 0x24EA), (0x24F5, 0x24FD), (0x24FF, 0x24FF),
   (0x2776, 0x277E), (0x2780, 0x2788), (0x278A, 0x2792), (0x10A40, 0x10A43), (0x10E60, 0x10E68), (0x11052, 0x1105A),
   (0x1F100, 0x1F10A)]

/-- `str.isdigit` of one character. -/
def isDigit (c : Char) : Bool := Sdp.isUnicodeDigit c || otherDigits.any fun block => block.1 ≤ c.toNat ∧ c.toNat ≤ block.2

/-- `int(text)` of a text of digits, or nothing where it raises ValueError. -/
def intOfDigits (text : Text) : Option Nat := (text.mapM unicodeDigit?).bind fun digits => pyInt (digits.map Nat.digitChar)

/-- `_parse_answer`: the answer, or the error of the `ConnectionFailed` that it raises. -/
def parseAnswer (body : Text) : Except SessionError Text :=
  let text := Sdp.strip body
  if Sdp.startsWith text "v=".toList then .ok body
  else if text ≠ [] ∧ text.all isDigit then
    match intOfDigits text with
    | some n => .error ((SessionError.ofInt? n).getD .signalingUnknownError)
    | none => .error .signalingUnknownError
  else .error .signalingParsingFailure

/-- A reply to a request: none where the request raises ClientError or OSError, and no body where it does not decode. -/
inductive HttpReply where
  | failed
  | response (status : Nat) (body : Option Text)
  deriving DecidableEq, Repr

/-- Why `request_answer` raises: `ConnectionFailed`, or what decoding the body raises. -/
inductive RequestError where
  | failed (error : SessionError)
  | unicodeDecodeError
  deriving DecidableEq, Repr

/-- The capability check. -/
def capable : HttpReply → Bool
  | .failed => false
  | .response status _ => status / 100 = 2

/-- `_parse_answer(await response.text())`. -/
def readAnswer : Option Text → Except RequestError Text
  | none => .error .unicodeDecodeError
  | some body => (parseAnswer body).mapError .failed

/-- What the reply to the POST comes to. -/
def answerOf : HttpReply → Except RequestError Text
  | .failed => .error (.failed .signalingFailedToSend)
  | .response status body => if status / 100 ≠ 2 then .error (.failed .signalingFailedToSend) else readAnswer body

private theorem parseAnswer_eq_ok {body answer : Text} :
    parseAnswer body = .ok answer ↔ answer = body ∧ Sdp.startsWith (Sdp.strip body) "v=".toList = true := by
  rw [parseAnswer]
  split
  · next hversion =>
    constructor
    · intro h
      exact ⟨(Except.ok.inj h).symm, hversion⟩
    · rintro ⟨rfl, -⟩
      rfl
  · next hversion =>
    have herror : ∀ error : SessionError, Except.error error = (Except.ok answer : Except SessionError Text) ↔
        answer = body ∧ Sdp.startsWith (Sdp.strip body) "v=".toList = true := by
      intro error
      constructor
      · intro h
        cases h
      · rintro ⟨-, h⟩
        exact absurd h hversion
    split
    · split
      · apply herror
      · apply herror
    · apply herror

private theorem readAnswer_eq_ok {body : Option Text} {answer : Text} :
    readAnswer body = .ok answer ↔ body = some answer ∧ Sdp.startsWith (Sdp.strip answer) "v=".toList = true := by
  cases body with
  | none => simp [readAnswer]
  | some body =>
    have hparse : parseAnswer body = .ok answer ↔ _ := parseAnswer_eq_ok
    cases hresult : parseAnswer body with
    | ok sdp =>
      rw [hresult, Except.ok.injEq] at hparse
      simp only [readAnswer, hresult, Except.mapError, Except.ok.injEq, Option.some.injEq]
      rw [hparse]
      constructor
      · rintro ⟨rfl, hversion⟩
        exact ⟨rfl, hversion⟩
      · rintro ⟨rfl, hversion⟩
        exact ⟨rfl, hversion⟩
    | error error =>
      rw [hresult] at hparse
      simp only [readAnswer, hresult, Except.mapError, reduceCtorEq, Option.some.injEq, false_iff]
      rintro ⟨rfl, hversion⟩
      cases hparse.mpr ⟨rfl, hversion⟩

/-! ### Codes -/

private theorem unicodeDigit?_digitChar : ∀ d < 10, unicodeDigit? (Nat.digitChar d) = some d := by decide

private theorem ascii_digit {c : Char} (h : c.isDigit = true) : ∃ d < 10, c = Nat.digitChar d := by
  have hc : c.toNat - 48 < 10 ∧ 48 ≤ c.toNat := by
    simp only [Char.isDigit, Bool.and_eq_true, decide_eq_true_eq, ge_iff_le, UInt32.le_iff_toNat_le] at h
    have hlow : 48 ≤ c.toNat := h.1
    have hhigh : c.toNat ≤ 57 := h.2
    omega
  refine ⟨c.toNat - 48, hc.1, Char.toNat_inj.mp ?_⟩
  rw [Nat.toNat_digitChar_of_lt_ten hc.1]
  omega

/-- ASCII digits are read as they are. -/
private theorem intOfDigits_ascii {text : Text} (h : ∀ c ∈ text, c.isDigit = true) : intOfDigits text = pyInt text := by
  have hdigits : ∃ digits, text.mapM unicodeDigit? = some digits ∧ digits.map Nat.digitChar = text := by
    induction text with
    | nil => exact ⟨[], rfl, rfl⟩
    | cons c rest ih =>
      obtain ⟨digits, hrest, hmap⟩ := ih fun c hc => h c (List.mem_cons_of_mem _ hc)
      obtain ⟨d, hd, rfl⟩ := ascii_digit (h c (List.mem_cons_self ..))
      refine ⟨d :: digits, ?_, by rw [List.map_cons, hmap]⟩
      rw [List.mapM_cons, unicodeDigit?_digitChar d hd, hrest]
      rfl
  obtain ⟨digits, hread, hmap⟩ := hdigits
  rw [intOfDigits, hread, Option.bind_some, hmap]

private theorem isDigit_of_ascii {c : Char} (h : c.isDigit = true) : isDigit c = true ∧ Sdp.isSpace c = false ∧ c ≠ 'v' := by
  obtain ⟨d, hd, rfl⟩ := ascii_digit h
  revert d
  decide

/-- A code too long for `int` is no member either. -/
private theorem code_of_decimal (n : Nat) : ((pyInt (decimal n)).bind fun n => SessionError.ofInt? n) = SessionError.ofInt? n := by
  by_cases hshort : (decimal n).length ≤ maxStrDigits
  · rw [pyInt_decimal hshort]
    rfl
  · rw [pyInt, if_neg hshort, Option.bind_none]
    cases hcode : SessionError.ofInt? n with
    | none => rfl
    | some error =>
      have hvalue := SessionError.toInt_of_ofInt? hcode
      have hbound : error.toInt ≤ 37 := by cases error <;> decide
      exact absurd (decimal_length_of_u64 (by rw [u64Max]; omega)) hshort

/-- A code in decimal, with white space around it, is raised as the error it stands for. -/
theorem parseAnswer_code (n : Nat) {front back : Text} (hfront : ∀ c ∈ front, Sdp.isSpace c = true)
    (hback : ∀ c ∈ back, Sdp.isSpace c = true) :
    parseAnswer (front ++ decimal n ++ back) = .error ((SessionError.ofInt? n).getD .signalingUnknownError) := by
  have hdigits : ∀ c ∈ decimal n, c.isDigit = true := List.all_eq_true.mp (isDecimal_decimal n)
  have hstrip : Sdp.strip (front ++ decimal n ++ back) = decimal n :=
    Sdp.strip_padded hfront hback (decimal_ne_nil n) fun c hc => (isDigit_of_ascii (hdigits c hc)).2.1
  have hversion : Sdp.startsWith (decimal n) "v=".toList = false := by
    cases htext : decimal n with
    | nil => exact absurd htext (decimal_ne_nil n)
    | cons c rest =>
      have hc := (isDigit_of_ascii (hdigits c (htext ▸ List.mem_cons_self ..))).2.2
      simp [Sdp.startsWith, List.isPrefixOf, hc.symm]
  have hall : decimal n ≠ [] ∧ (decimal n).all isDigit = true :=
    ⟨decimal_ne_nil n, List.all_eq_true.mpr fun c hc => (isDigit_of_ascii (hdigits c hc)).1⟩
  have hcode := code_of_decimal n
  rw [← intOfDigits_ascii hdigits] at hcode
  rw [parseAnswer]
  simp only [hstrip, hversion, Bool.false_eq_true, if_false]
  rw [if_pos hall]
  cases hint : intOfDigits (decimal n) with
  | none =>
    rw [hint, Option.bind_none] at hcode
    rw [← hcode]
    rfl
  | some value =>
    rw [hint, Option.bind_some] at hcode
    simp only [hcode]

/-- `request_answer` returns a 2xx body that opens with `v=`, after any white space, and returns
it unchanged; a 2xx body that is a number, of any length, is raised as the error with that
code, or as an unknown one if there is none; what is neither, and what is no digits at
all, is a parsing failure; and without a 2xx reply the offer could not be sent. -/
theorem answerOf_accounted :
    (∀ reply answer, answerOf reply = .ok answer ↔ ∃ status, reply = .response status (some answer) ∧ status / 100 = 2 ∧
      Sdp.startsWith (Sdp.strip answer) "v=".toList = true) ∧
    (∀ status front n back, status / 100 = 2 → (∀ c ∈ front, Sdp.isSpace c = true) → (∀ c ∈ back, Sdp.isSpace c = true) →
      answerOf (.response status (some (front ++ decimal n ++ back))) =
        .error (.failed ((SessionError.ofInt? n).getD .signalingUnknownError))) ∧
    (∀ status body, status / 100 = 2 → Sdp.startsWith (Sdp.strip body) "v=".toList = false →
      (Sdp.strip body = [] ∨ ∃ c ∈ Sdp.strip body, isDigit c = false) →
      answerOf (.response status (some body)) = .error (.failed .signalingParsingFailure)) ∧
    ∀ reply, capable reply = false → answerOf reply = .error (.failed .signalingFailedToSend) := by
  refine ⟨fun reply answer => ?_, fun status front n back hstatus hfront hback => ?_, fun status body hstatus hversion hother => ?_,
    fun reply hcapable => ?_⟩
  · cases reply with
    | failed => simp [answerOf]
    | response status body =>
      by_cases hstatus : status / 100 = 2
      · rw [answerOf, if_neg (not_not.mpr hstatus), readAnswer_eq_ok]
        constructor
        · rintro ⟨rfl, hversion⟩
          exact ⟨status, rfl, hstatus, hversion⟩
        · rintro ⟨_, hreply, _, hversion⟩
          cases hreply
          exact ⟨rfl, hversion⟩
      · rw [answerOf, if_pos hstatus]
        simp [hstatus]
  · rw [answerOf, if_neg (not_not.mpr hstatus), readAnswer, parseAnswer_code n hfront hback]
    rfl
  · have hdigits : ¬ (Sdp.strip body ≠ [] ∧ (Sdp.strip body).all isDigit = true) := by
      rintro ⟨hne, hall⟩
      rcases hother with hempty | ⟨c, hc, hdigit⟩
      · exact hne hempty
      · rw [List.all_eq_true.mp hall c hc] at hdigit
        cases hdigit
    rw [answerOf, if_neg (not_not.mpr hstatus), readAnswer]
    simp only [parseAnswer, hversion, Bool.false_eq_true, if_false]
    rw [if_neg hdigits]
    rfl
  · cases reply with
    | failed => rfl
    | response status body => exact if_pos (by simpa [capable] using hcapable)

end NetherNet
