import NetherNet.Library.Decimal
import NetherNet.Protocol.Uuid

/-! The texts of network ids: what `str` gives is what `NetworkID.parse` reads back, and no
two ids have the same one. -/
namespace NetherNet
open Library

/-- `'%032x' % self.int`. -/
def uuidHex (uuid : Nat) : Text := (Nat.toDigits 16 uuid).leftpad 32 '0'

/-- `str` of a UUID: 8, 4, 4, 4 and 12 of its hexadecimal digits, with hyphens between. -/
def uuidText (uuid : Nat) : Text :=
  let hex := uuidHex uuid
  hex.take 8 ++ '-' :: (hex.drop 8).take 4 ++ '-' :: (hex.drop 12).take 4 ++ '-' :: (hex.drop 16).take 4 ++ '-' :: hex.drop 20

namespace NetworkId

/-- The class method `p2p`, or nothing where it raises ValueError. -/
def ofP2p (value : Int) : Option NetworkId := if 0 ≤ value ∧ value ≤ u64Max then some (.p2p value.toNat) else none

/-- `__str__`. -/
def str : NetworkId → Text
  | p2p value => decimal value
  | realms uuid => uuidText uuid
  | unset => []

/-- An id that one of the three class methods has made; the value of a UUID has 128 bits. -/
inductive Built : NetworkId → Prop where
  | p2p (value : Int) (id : NetworkId) (h : ofP2p value = some id) : Built id
  | realms (uuid : Nat) (h : uuid < 2 ^ 128) : Built (.realms uuid)
  | unset : Built .unset

end NetworkId

/-! ### The hexadecimal digits of a UUID -/

/-- A hexadecimal digit as it is printed, and no character that the parser of UUIDs treats specially. -/
private theorem digitChar_plain {d : Nat} (h : d < 16) :
    hexValue? (Nat.digitChar d) = some d ∧ asciiNumeral (Nat.digitChar d) = Nat.digitChar d ∧
      isAsciiSpace (Nat.digitChar d) = false ∧
        Nat.digitChar d ∉ ['-', '+', '_', 'x', 'X', 'u', '{', '}'] := by
  revert d
  decide

private def IsHex (digits : Text) : Prop := ∀ c ∈ digits, ∃ d < 16, c = Nat.digitChar d

private theorem isHex_toDigits (n : Nat) : IsHex (Nat.toDigits 16 n) := by
  induction n using Nat.strongRecOn with
  | ind n ih =>
    rw [Nat.toDigits_eq_if (by decide)]
    split
    · next hlt =>
      intro c hc
      exact ⟨n, hlt, List.mem_singleton.mp hc⟩
    · next hge =>
      intro c hc
      rcases List.mem_append.mp hc with hc | hc
      · exact ih (n / 16) (by omega) c hc
      · exact ⟨n % 16, Nat.mod_lt _ (by decide), List.mem_singleton.mp hc⟩

private theorem isHex_uuidHex (uuid : Nat) : IsHex (uuidHex uuid) := by
  intro c hc
  rcases List.mem_append.mp hc with hzero | hdigit
  · exact ⟨0, by decide, (List.mem_replicate.mp hzero).2⟩
  · exact isHex_toDigits uuid c hdigit

private theorem length_uuidHex {uuid : Nat} (h : uuid < 2 ^ 128) : (uuidHex uuid).length = 32 := by
  have hle : (Nat.toDigits 16 uuid).length ≤ 32 := by
    rw [Nat.length_toDigits_le_iff (by decide) (by decide)]
    exact Nat.lt_of_lt_of_eq h (by decide)
  rw [uuidHex, List.length_leftpad]
  exact Nat.max_eq_left hle

private theorem readHex_digit (value : Nat) (fresh : Bool) {d : Nat} (h : d < 16) (rest : Text) :
    readHex value fresh (Nat.digitChar d :: rest) = readHex (16 * value + d) false rest := by
  obtain ⟨hvalue, _, _, hplain⟩ := digitChar_plain h
  have hunderscore : Nat.digitChar d ≠ '_' := fun heq => hplain (by rw [heq]; decide)
  rw [readHex, if_neg hunderscore, hvalue]

private theorem readHex_toDigits (n : Nat) (fresh : Bool) (rest : Text) :
    readHex 0 fresh (Nat.toDigits 16 n ++ rest) = readHex n false rest := by
  induction n using Nat.strongRecOn generalizing rest with
  | ind n ih =>
    rw [Nat.toDigits_eq_if (by decide)]
    split
    · next hlt =>
      rw [List.cons_append, List.nil_append, readHex_digit 0 fresh hlt, Nat.mul_zero, Nat.zero_add]
    · next hge =>
      rw [List.append_assoc, ih (n / 16) (by omega), List.cons_append, List.nil_append,
        readHex_digit _ _ (Nat.mod_lt n (by decide)), Nat.div_add_mod]

private theorem readHex_zeros (count : Nat) (fresh : Bool) (uuid : Nat) :
    readHex 0 fresh (List.replicate count '0' ++ Nat.toDigits 16 uuid) = some uuid := by
  induction count generalizing fresh with
  | zero =>
    rw [List.replicate_zero, List.nil_append, ← List.append_nil (Nat.toDigits 16 uuid), readHex_toDigits]
    rfl
  | succ count ih =>
    rw [List.replicate_succ, List.cons_append]
    exact (@readHex_digit 0 fresh 0 (by decide) _).trans (ih false)

private theorem dropHexPrefix_plain {text : Text} (hx : 'x' ∉ text) (hX : 'X' ∉ text) : dropHexPrefix text = text := by
  unfold dropHexPrefix
  split
  · exact absurd (by simp) hx
  · exact absurd (by simp) hX
  · exact absurd (by simp) hx
  · exact absurd (by simp) hX
  · rfl

private theorem dropWhile_none {p : Char → Bool} {text : Text} (h : ∀ c ∈ text, p c = false) : text.dropWhile p = text := by
  cases text with
  | nil => rfl
  | cons c rest => rw [List.dropWhile_cons, h c List.mem_cons_self, if_neg Bool.false_ne_true]

/-- What is cut off at the two ends is nothing. -/
private theorem strip_none {p : Char → Bool} {text : Text} (h : ∀ c ∈ text, p c = false) :
    ((text.dropWhile p).reverse.dropWhile p).reverse = text := by
  have hback : ∀ c ∈ text.reverse, p c = false := fun c hc => h c (List.mem_reverse.mp hc)
  rw [dropWhile_none h, dropWhile_none hback, List.reverse_reverse]

private theorem pyIntHex_uuidHex (uuid : Nat) : pyIntHex (uuidHex uuid) = some (uuid : Int) := by
  have hhex := isHex_uuidHex uuid
  have hplain : ∀ {c : Char}, c ∈ ['-', '+', '_', 'x', 'X', 'u', '{', '}'] → c ∉ uuidHex uuid := by
    intro c hspecial hc
    obtain ⟨d, hd, rfl⟩ := hhex c hc
    exact (digitChar_plain hd).2.2.2 hspecial
  have hmap : (uuidHex uuid).map asciiNumeral = uuidHex uuid := by
    refine (List.map_congr_left fun c hc => ?_).trans (List.map_id _)
    obtain ⟨d, hd, rfl⟩ := hhex c hc
    exact (digitChar_plain hd).2.1
  have hspace : ∀ c ∈ uuidHex uuid, isAsciiSpace c = false := by
    intro c hc
    obtain ⟨d, hd, rfl⟩ := hhex c hc
    exact (digitChar_plain hd).2.2.1
  have hread : (readHex 0 true (dropHexPrefix (uuidHex uuid))).map Int.ofNat = some (uuid : Int) := by
    rw [dropHexPrefix_plain (hplain (by decide)) (hplain (by decide))]
    exact congrArg (Option.map Int.ofNat) (readHex_zeros _ true uuid)
  unfold pyIntHex
  rw [hmap, strip_none hspace]
  split
  · next heq => exact absurd (by rw [heq]; exact List.mem_cons_self) (hplain (c := '-') (by decide))
  · next heq => exact absurd (by rw [heq]; exact List.mem_cons_self) (hplain (c := '+') (by decide))
  · exact hread

/-! ### The hyphenated text -/

/-- Where the first character of an occurrence is missing, there is nothing to remove. -/
private theorem removeAll_none {first : Char} (old : Text) {text : Text} (h : first ∉ text) : removeAll (first :: old) 0 text = text := by
  induction text with
  | nil => rfl
  | cons c rest ih =>
    rw [List.mem_cons, not_or] at h
    have hstarts : (first :: old).isPrefixOf (c :: rest) = false := by
      rw [List.isPrefixOf, beq_false_of_ne h.1, Bool.false_and]
    rw [removeAll, hstarts, if_neg Bool.false_ne_true, ih h.2]

private theorem removeAll_hyphens (text : Text) : removeAll ['-'] 0 text = text.filter (· ≠ '-') := by
  induction text with
  | nil => rfl
  | cons c rest ih =>
    rw [removeAll, List.filter_cons]
    by_cases hc : c = '-'
    · subst hc
      exact ih
    · have hstarts : ['-'].isPrefixOf (c :: rest) = false := by
        rw [List.isPrefixOf, beq_false_of_ne fun heq => hc heq.symm, Bool.false_and]
      rw [hstarts, if_neg Bool.false_ne_true, decide_eq_true hc, if_pos rfl, ih]

private theorem filter_uuidText (uuid : Nat) : (uuidText uuid).filter (· ≠ '-') = uuidHex uuid := by
  have hkeeps : ∀ digits : Text, (∀ c ∈ digits, c ∈ uuidHex uuid) → digits.filter (· ≠ '-') = digits := by
    intro digits hsub
    refine List.filter_eq_self.mpr fun c hc => decide_eq_true ?_
    rintro rfl
    obtain ⟨d, hd, heq⟩ := isHex_uuidHex uuid '-' (hsub '-' hc)
    exact (digitChar_plain hd).2.2.2 (heq ▸ List.mem_cons_self)
  have hslice : ∀ start size, ((((uuidHex uuid).drop start).take size).filter (· ≠ '-')) = ((uuidHex uuid).drop start).take size :=
    fun start size => hkeeps _ fun c hc => List.mem_of_mem_drop (List.mem_of_mem_take hc)
  have hfirst := hkeeps ((uuidHex uuid).take 8) fun c hc => List.mem_of_mem_take hc
  have hlast := hkeeps ((uuidHex uuid).drop 20) fun c hc => List.mem_of_mem_drop hc
  have hhyphen : ∀ rest : Text, ('-' :: rest).filter (· ≠ '-') = rest.filter (· ≠ '-') := fun _ => rfl
  simp only [uuidText, List.append_assoc, List.cons_append, List.filter_append, hhyphen, hslice, hfirst, hlast]
  -- the five slices follow each other
  have hjoin : ∀ start size, ((uuidHex uuid).drop start).take size ++ (uuidHex uuid).drop (start + size) = (uuidHex uuid).drop start := by
    intro start size
    rw [← List.drop_drop]
    exact List.take_append_drop _ _
  rw [hjoin 16 4, hjoin 12 4, hjoin 8 4]
  exact List.take_append_drop _ _

private theorem mem_uuidText {uuid : Nat} {c : Char} (hc : c ∈ uuidText uuid) : c = '-' ∨ c ∈ uuidHex uuid := by
  by_cases h : c = '-'
  · exact Or.inl h
  · rw [← filter_uuidText]
    exact Or.inr (List.mem_filter.mpr ⟨hc, decide_eq_true h⟩)

/-- `uuid.UUID` reads what `str` prints. -/
theorem parseUuid_uuidText {uuid : Nat} (h : uuid < 2 ^ 128) : parseUuid (uuidText uuid) = some uuid := by
  have hplain : ∀ {c : Char}, c ∈ ['u', '{', '}'] → c ∉ uuidText uuid := by
    intro c hspecial hc
    rcases mem_uuidText hc with rfl | hc
    · revert hspecial
      decide
    · obtain ⟨d, hd, rfl⟩ := isHex_uuidHex uuid c hc
      refine (digitChar_plain hd).2.2.2 ?_
      exact List.mem_cons_of_mem _ (List.mem_cons_of_mem _ (List.mem_cons_of_mem _ (List.mem_cons_of_mem _
        (List.mem_cons_of_mem _ hspecial))))
  have hbrace : ∀ c ∈ uuidText uuid, decide (c = '{' ∨ c = '}') = false := by
    intro c hc
    rw [decide_eq_false_iff_not]
    rintro (rfl | rfl)
    · exact hplain (by decide) hc
    · exact hplain (by decide) hc
  have hcolons : removeAll "uuid:".toList 0 (removeAll "urn:".toList 0 (uuidText uuid)) = uuidText uuid := by
    rw [show "urn:".toList = 'u' :: "rn:".toList from rfl, removeAll_none _ (hplain (by decide)),
      show "uuid:".toList = 'u' :: "uid:".toList from rfl, removeAll_none _ (hplain (by decide))]
  unfold parseUuid
  rw [hcolons]
  simp only [strip_none hbrace, removeAll_hyphens, filter_uuidText, length_uuidHex h, pyIntHex_uuidHex]
  rw [if_neg (by simp), Option.bind_some, if_pos ⟨Int.natCast_nonneg _, by exact_mod_cast h⟩]
  rfl

/-! ### Reading an id back -/

namespace NetworkId

private theorem isDecimal_iff (text : Text) : text ≠ [] ∧ isDecimal text = true ↔ ∃ value, IsNumeral text value := by
  rw [isDecimal, List.all_eq_true]
  constructor
  · rintro ⟨hne, hd⟩
    exact ⟨_, hne, hd, rfl⟩
  · rintro ⟨_, hne, hd, _⟩
    exact ⟨hne, hd⟩

private theorem parse_numeral {text : Text} {value : Nat} (h : IsNumeral text value) (hshort : text.length ≤ maxStrDigits) :
    parse text = some (if value ≤ u64Max then .p2p value else parseOther text) := by
  have hdecimal := (isDecimal_iff text).mpr ⟨value, h⟩
  rw [parse, if_pos hdecimal, pyInt, if_pos hshort, h.2.2]
  rfl

private theorem parse_other {text : Text} (h : ∀ value, ¬ IsNumeral text value) : parse text = some (parseOther text) := by
  rw [parse, if_neg]
  intro hdecimal
  obtain ⟨value, hvalue⟩ := (isDecimal_iff text).mp hdecimal
  exact h value hvalue

private theorem parseOther_ne_p2p (text : Text) (value : Nat) : parseOther text ≠ .p2p value := by
  unfold parseOther
  split <;> exact NetworkId.noConfusion

private theorem parse_p2p {value : Nat} (h : value ≤ u64Max) : parse (decimal value) = some (.p2p value) := by
  have hparse := parse_numeral (isNumeral_toDigits value) (decimal_length_of_u64 h)
  rwa [if_pos h] at hparse

private theorem parse_realms {uuid : Nat} (h : uuid < 2 ^ 128) : parse (uuidText uuid) = some (.realms uuid) := by
  have hhyphen : '-' ∈ uuidText uuid := by simp [uuidText]
  rw [parse_other, parseOther, parseUuid_uuidText h]
  -- a hyphen is no digit
  rintro value ⟨_, hd, _⟩
  exact Bool.false_ne_true (hd '-' hhyphen)

theorem Built.parse_str {id : NetworkId} (h : id.Built) : parse id.str = some id := by
  cases h with
  | p2p value id h =>
    unfold ofP2p at h
    split at h
    · next hrange =>
      obtain rfl := Option.some.inj h
      exact parse_p2p (Int.toNat_le.mpr hrange.2)
    · cases h
  | realms uuid h => exact parse_realms h
  | unset => rfl

/-- Every id is read back from its text, so that different ids have different texts; and a text
is read as a P2P id exactly if it is a run of ASCII digits with a u64 value, and else as the
UUID that it is or as unset. -/
theorem parse_str_agree :
    (∀ id : NetworkId, id.Built → parse id.str = some id) ∧
    (∀ id id' : NetworkId, id.Built → id'.Built → id.str = id'.str → id = id') ∧
    ∀ text : Text, (isDecimal text = true → text.length ≤ maxStrDigits) →
      (∀ value, parse text = some (.p2p value) ↔ IsNumeral text value ∧ value ≤ u64Max) ∧
      ((¬ ∃ value, IsNumeral text value ∧ value ≤ u64Max) →
        (∀ uuid, parse text = some (.realms uuid) ↔ parseUuid text = some uuid) ∧
          (parse text = some .unset ↔ parseUuid text = none)) := by
  refine ⟨fun id h => h.parse_str, fun id id' h h' hstr => ?_, fun text hshort => ⟨fun value => ?_, fun hother => ?_⟩⟩
  · have hread := h.parse_str
    rw [hstr, h'.parse_str] at hread
    exact (Option.some.inj hread).symm
  · by_cases hnumeral : ∃ value, IsNumeral text value
    · obtain ⟨value', hvalue'⟩ := hnumeral
      rw [parse_numeral hvalue' (hshort ((isDecimal_iff text).mpr ⟨value', hvalue'⟩).2)]
      split
      · next hle =>
        refine ⟨fun h => ?_, fun h => ?_⟩
        · obtain rfl := NetworkId.p2p.inj (Option.some.inj h)
          exact ⟨hvalue', hle⟩
        · rw [← h.1.2.2, hvalue'.2.2]
      · next hlarge =>
        refine ⟨fun h => absurd (Option.some.inj h) (parseOther_ne_p2p text value), fun h => ?_⟩
        rw [← h.1.2.2, hvalue'.2.2] at h
        exact absurd h.2 hlarge
    · rw [parse_other fun value hvalue => hnumeral ⟨value, hvalue⟩]
      exact iff_of_false (fun h => parseOther_ne_p2p text value (Option.some.inj h)) fun h => hnumeral ⟨value, h.1⟩
  · have hparse : parse text = some (parseOther text) := by
      by_cases hnumeral : ∃ value, IsNumeral text value
      · obtain ⟨value, hvalue⟩ := hnumeral
        rw [parse_numeral hvalue (hshort ((isDecimal_iff text).mpr ⟨value, hvalue⟩).2),
          if_neg fun hle => hother ⟨value, hvalue, hle⟩]
      · exact parse_other fun value hvalue => hnumeral ⟨value, hvalue⟩
    rw [hparse, parseOther]
    cases parseUuid text with
    | none => exact ⟨fun uuid => by simp, by simp⟩
    | some uuid' => exact ⟨fun uuid => by simp, by simp⟩

/-- A UUID of decimal digits only, and the same digits without hyphens: both are Realms ids. -/
theorem parse_str_agree_digits :
    let text := List.replicate 32 '1'
    parse (str (.realms 0x11111111111111111111111111111111)) = some (.realms 0x11111111111111111111111111111111) ∧
      parse text = some (.realms 0x11111111111111111111111111111111) := by
  intro text
  obtain ⟨hread, _, htexts⟩ := parse_str_agree
  refine ⟨hread _ (.realms _ (by decide)), ?_⟩
  have hvalue : ∀ value, IsNumeral text value → u64Max < value := by
    rintro value ⟨_, _, rfl⟩
    decide
  obtain ⟨_, hother⟩ := htexts text fun _ => by decide
  exact ((hother fun ⟨value, h, hle⟩ => absurd (hvalue value h) (Nat.not_lt.mpr hle)).1 _).mpr (by decide)

end NetworkId
end NetherNet
