import NetherNet.Library.Lines
import NetherNet.Transport.Sdp

/-! The lines of a session description are the lines of its code points, and a text that is
looked for within lines is looked for in each of them. -/
namespace NetherNet.Sdp
open Library hiding isLineBreak isSpace strip content

/-- The code points of a text. -/
def codes (s : Text) : Str := s.map CodePoint.ofChar

theorem ofChar_inj {c d : Char} : CodePoint.ofChar c = CodePoint.ofChar d ↔ c = d := by
  refine ⟨fun h => ?_, congrArg _⟩
  have hval : (CodePoint.ofChar c).val = (CodePoint.ofChar d).val := by rw [h]
  exact Char.ext (UInt32.toNat_inj.mp hval)

theorem ofChar_carriageReturn : CodePoint.ofChar '\r' = carriageReturn := by decide
theorem ofChar_lineFeed : CodePoint.ofChar '\n' = lineFeed := by decide

theorem codes_inj {s t : Text} : codes s = codes t ↔ s = t :=
  ⟨fun h => List.map_injective_iff.mpr (fun _ _ => ofChar_inj.mp) h, congrArg _⟩

/-- The text of some code points; the other inverse of `codes` is not needed. -/
def chars (s : Str) : Text := s.map fun c => Char.ofNat c.val

@[simp] theorem chars_codes (s : Text) : chars (codes s) = s := by
  rw [chars, codes, List.map_map]
  exact (List.map_congr_left fun c _ => Char.ofNat_toNat c).trans (List.map_id s)

theorem codes_append (s t : Text) : codes (s ++ t) = codes s ++ codes t := List.map_append

theorem codes_flatten (ls : List Text) : codes ls.flatten = (ls.map codes).flatten := List.map_flatten

theorem lines_codes (s : Text) : lines (codes s) = (splitLines s).map codes := by
  induction s with
  | nil => rfl
  | cons c rest ih =>
    have hhead : (codes rest).head? = some lineFeed ↔ rest.head? = some '\n' := by
      rw [← ofChar_lineFeed, codes, List.head?_map]
      cases rest.head? with
      | none => simp
      | some d => simp [ofChar_inj]
    have hcr : CodePoint.ofChar c = carriageReturn ↔ c = '\r' := by rw [← ofChar_carriageReturn, ofChar_inj]
    have hsame : (Library.isLineBreak (CodePoint.ofChar c) = true ∧
        ¬ (CodePoint.ofChar c = carriageReturn ∧ (codes rest).head? = some lineFeed)) ↔
        (isLineBreak c = true ∧ ¬ (c = '\r' ∧ rest.head? = some '\n')) := by
      rw [hhead, hcr]
      rfl
    rw [splitLines]
    by_cases hc : isLineBreak c = true ∧ ¬ (c = '\r' ∧ rest.head? = some '\n')
    · rw [if_pos hc]
      exact (lines_cons_break (hsame.mpr hc).1 (hsame.mpr hc).2).trans (by rw [ih]; rfl)
    · rw [if_neg hc]
      cases hl : splitLines rest with
      | nil =>
        rw [hl] at ih
        rw [show codes (c :: rest) = CodePoint.ofChar c :: codes rest from rfl, lines, if_neg (hsame.not.mpr hc), ih]
        rfl
      | cons line more =>
        rw [hl] at ih
        exact lines_cons_inner (hsame.not.mpr hc) ih

theorem flatten_splitLines (s : Text) : (splitLines s).flatten = s := by
  rw [← codes_inj, codes_flatten, ← lines_codes, flatten_lines]

theorem isLine_of_mem_splitLines {s line : Text} (h : line ∈ splitLines s) : IsLine (codes line) := by
  apply isLine_of_mem (s := codes s)
  rw [lines_codes]
  exact List.mem_map_of_mem h

theorem splitLines_apart (s : Text) : (splitLines s).IsChain fun a b => Apart (codes a) (codes b) := by
  have hchain := lines_apart (codes s)
  rwa [lines_codes, List.isChain_map] at hchain

theorem splitLines_flatten {ls : List Text} (hl : ∀ line ∈ ls, IsLine (codes line))
    (hc : ls.IsChain fun a b => Apart (codes a) (codes b)) : splitLines ls.flatten = ls := by
  have hlines := @lines_flatten (ls.map codes) (List.forall_mem_map.mpr hl) ((List.isChain_map codes).mpr hc)
  rw [← codes_flatten, lines_codes] at hlines
  exact List.map_injective_iff.mpr (fun _ _ => codes_inj.mp) hlines

theorem splitLines_closed (s : Text) : (splitLines s).Pairwise fun line _ => Closed (codes line) := by
  have hclosed := lines_closed (codes s)
  rwa [lines_codes, List.pairwise_map] at hclosed

theorem mem_splitLines_flatten {ls : List Text} (hl : ∀ line ∈ ls, IsLine (codes line))
    (hc : ls.Pairwise fun line _ => Closed (codes line)) {line : Text} (h : line ∈ splitLines ls.flatten) :
    line ∈ ls ∨ ∃ part ∈ ls, Closed (codes part) ∧ line = part ++ ['\n'] := by
  have hmem : codes line ∈ lines (ls.map codes).flatten := by
    rw [← codes_flatten, lines_codes]
    exact List.mem_map_of_mem h
  obtain hin | ⟨part, hin, hclosed, heq⟩ := mem_lines_flatten (List.forall_mem_map.mpr hl) (List.pairwise_map.mpr hc) hmem
  · obtain ⟨other, hother, heq⟩ := List.mem_map.mp hin
    exact .inl (codes_inj.mp heq ▸ hother)
  · obtain ⟨other, hother, rfl⟩ := List.mem_map.mp hin
    refine .inr ⟨other, hother, hclosed, codes_inj.mp ?_⟩
    rw [heq, ← ofChar_lineFeed, codes_append]
    rfl

theorem closed_codes {s : Text} : Closed (codes s) ↔ ∃ c ∈ s.getLast?, isLineBreak c = true := by
  rw [Closed, codes, List.getLast?_map]
  constructor
  · rintro ⟨d, hd, hb⟩
    obtain ⟨c, hc, rfl⟩ := Option.map_eq_some_iff.mp hd
    exact ⟨c, hc, hb⟩
  · rintro ⟨c, hc, hb⟩
    exact ⟨CodePoint.ofChar c, Option.map_eq_some_iff.mpr ⟨c, hc, rfl⟩, hb⟩

theorem merges_codes {s t : Text} : Merges (codes s) (codes t) ↔ s.getLast? = some '\r' ∧ t.head? = some '\n' := by
  have hsame : ∀ {o : Option Char} (c : Char), o.map CodePoint.ofChar = some (CodePoint.ofChar c) ↔ o = some c := by
    intro o c
    cases o with
    | none => simp
    | some d => simp [ofChar_inj]
  rw [Merges, codes, codes, List.getLast?_map, List.head?_map, ← ofChar_carriageReturn, ← ofChar_lineFeed, hsame, hsame]

/-! ### Stripping -/

/-- A text is stripped from both ends, in either order. -/
private theorem dropWhile_rdropWhile {α : Type} (p : α → Bool) (l : List α) :
    (l.dropWhile p).rdropWhile p = (l.rdropWhile p).dropWhile p := by
  induction l with
  | nil => rfl
  | cons a l ih =>
    have hcons : (a :: l).rdropWhile p = if l.rdropWhile p = [] then [a].dropWhile p else a :: l.rdropWhile p := by
      unfold List.rdropWhile
      rw [List.reverse_cons, List.dropWhile_append]
      cases hl : l.reverse.dropWhile p with
      | nil => by_cases ha : p a = true <;> simp [ha]
      | cons b m => simp
    by_cases ha : p a = true
    · rw [List.dropWhile_cons_of_pos ha, ih, hcons]
      split
      · next hnil => simp [hnil, ha]
      · rw [List.dropWhile_cons_of_pos ha]
    · rw [List.dropWhile_cons_of_neg ha, hcons]
      split
      · simp [ha]
      · rw [List.dropWhile_cons_of_neg ha]

theorem strip_codes (s : Text) : Library.strip (codes s) = codes (strip s) := by
  have hstrip : strip s = (s.rdropWhile isSpace).dropWhile isSpace := dropWhile_rdropWhile isSpace s
  have hdrop : ∀ t : Text, (codes t).dropWhile Library.isSpace = codes (t.dropWhile isSpace) := by
    intro t
    induction t with
    | nil => rfl
    | cons c t ih =>
      have hspace : Library.isSpace (CodePoint.ofChar c) = isSpace c := rfl
      rw [codes, List.map_cons, List.dropWhile_cons, List.dropWhile_cons, hspace]
      split
      · exact ih
      · rfl
  have hreverse : ∀ t : Text, codes t.reverse = (codes t).reverse := fun t => List.map_reverse
  rw [Library.strip, hstrip, List.rdropWhile, List.rdropWhile, ← hreverse, hdrop, ← hreverse, hdrop]

/-- White space on both sides is stripped. -/
theorem strip_padded {front text back : Text} (hfront : ∀ c ∈ front, isSpace c = true) (hback : ∀ c ∈ back, isSpace c = true)
    (hne : text ≠ []) (htext : ∀ c ∈ text, isSpace c = false) : strip (front ++ text ++ back) = text := by
  have stays : ∀ l rest : Text, l ≠ [] → (∀ c ∈ l, isSpace c = false) → (l ++ rest).dropWhile isSpace = l ++ rest := by
    intro l rest hl hspace
    cases l with
    | nil => exact absurd rfl hl
    | cons c l => exact List.dropWhile_cons_of_neg (by simp [hspace c (List.mem_cons_self ..)])
  have hreverse : ∀ c ∈ text.reverse, isSpace c = false := fun c hc => htext c (List.mem_reverse.mp hc)
  have hlast := stays text.reverse [] (by simpa using hne) hreverse
  rw [List.append_nil] at hlast
  rw [strip, List.append_assoc, List.dropWhile_append_of_pos hfront, stays text back hne htext, List.reverse_append,
    List.dropWhile_append_of_pos fun c hc => hback c (List.mem_reverse.mp hc), hlast, List.reverse_reverse]


theorem strip_isInfix (line : Text) : strip line <:+: line :=
  (List.rdropWhile_prefix isSpace (line.dropWhile isSpace)).isInfix.trans (List.dropWhile_suffix isSpace).isInfix

/-- A name without space that a line starts with stays at its start. -/
theorem startsWith_strip {name line : Text} (hn : name.all (fun c => !isSpace c) = true) (hne : name ≠ [])
    (h : startsWith line name = true) : startsWith (strip line) name = true := by
  obtain ⟨z, rfl⟩ := List.isPrefixOf_iff_prefix.mp h
  have hspace : ∀ c ∈ name, ¬ isSpace c = true := fun c hc => by simpa using List.all_eq_true.mp hn c hc
  obtain ⟨c, rest, hname⟩ := List.exists_cons_of_ne_nil hne
  have hleft : (name ++ z).dropWhile isSpace = name ++ z := by
    rw [hname]
    exact List.dropWhile_cons_of_neg (hspace c (by simp [hname]))
  have hright : name.reverse.dropWhile isSpace = name.reverse := by
    obtain ⟨d, more, hrev⟩ := List.exists_cons_of_ne_nil (List.reverse_ne_nil_iff.mpr hne)
    rw [hrev]
    exact List.dropWhile_cons_of_neg (hspace d (List.mem_reverse.mp (by rw [hrev]; exact List.mem_cons_self)))
  rw [strip, hleft, List.reverse_append, List.dropWhile_append, hright, startsWith, List.isPrefixOf_iff_prefix]
  split
  · simp
  · rw [List.reverse_append, List.reverse_reverse]
    exact List.prefix_append _ _

/-- The stripped lines that are not blank. -/
def content (s : Text) : List Text := ((splitLines s).map strip).filter fun line => !line.isEmpty

private theorem codes_nonempty (ls : List Text) :
    ((ls.map strip).filter fun line => !line.isEmpty).map codes =
      (((ls.map codes).map Library.strip).filter fun line => !line.isEmpty) := by
  have hempty : ∀ t : Text, (codes t).isEmpty = t.isEmpty := fun t => List.isEmpty_map
  simp only [List.map_map, List.filter_map, Function.comp_def, strip_codes, hempty]

/-- Lines put together hold what each of them holds. -/
theorem content_flatten {ls : List Text} (hl : ∀ line ∈ ls, IsLine (codes line))
    (hc : ls.Pairwise fun line _ => Closed (codes line)) :
    content ls.flatten = (ls.map strip).filter fun line => !line.isEmpty := by
  have hcontent := @Library.content_flatten (ls.map codes) (List.forall_mem_map.mpr hl) (List.pairwise_map.mpr hc)
  rw [← codes_flatten, Library.content, lines_codes, ← codes_nonempty, ← codes_nonempty] at hcontent
  exact List.map_injective_iff.mpr (fun _ _ => codes_inj.mp) hcontent

theorem strip_concat_lineFeed (line : Text) : strip (line ++ ['\n']) = strip line := by
  rw [← codes_inj, ← strip_codes, ← strip_codes, codes_append]
  exact strip_concat (codes line) (by decide)

/-- Lines that are told apart by what they hold are taken out as `flatten_filter` says. -/
theorem flatten_filter_splitLines {ls : List Text} {keep : Text → Bool} (hl : ∀ line ∈ ls, IsLine (codes line))
    (hc : ls.Pairwise fun line _ => Closed (codes line)) (hblank : keep [] = true)
    (hm : ls.IsChain fun a b => keep (strip a) = false → ¬ (a.getLast? = some '\r' ∧ b.head? = some '\n')) :
    ((splitLines ls.flatten).filter fun line => keep (strip line)).flatten = (ls.filter fun line => keep (strip line)).flatten := by
  have hchars : ∀ line : Text, strip (chars (codes line)) = strip line := fun line => by rw [chars_codes]
  have hfilter : ∀ l : List Text, (l.map codes).filter (fun line => keep (strip (chars line))) =
      (l.filter fun line => keep (strip line)).map codes := by
    intro l
    simp only [List.filter_map, Function.comp_def, hchars]
  have hflatten := @flatten_filter (ls.map codes) (fun line => keep (strip (chars line)))
    (List.forall_mem_map.mpr hl) (List.pairwise_map.mpr hc) ?_ ?_ ?_
  · rw [← codes_flatten, lines_codes, hfilter, hfilter, ← codes_flatten, ← codes_flatten] at hflatten
    exact codes_inj.mp hflatten
  · refine List.forall_mem_map.mpr fun line _ => ?_
    rw [← ofChar_lineFeed, show codes line ++ [CodePoint.ofChar '\n'] = codes (line ++ ['\n']) from (codes_append line ['\n']).symm, hchars,
      hchars, strip_concat_lineFeed]
  · exact hblank
  · rw [List.isChain_map]
    refine hm.imp fun a b h hgone => ?_
    rw [merges_codes]
    exact h (by rwa [hchars] at hgone)

/-! ### Looking for a text -/

/-- `needle` does not go on over the end of `x`. -/
def Stops (needle x : Text) : Prop := ∃ c ∈ x.getLast?, c ∉ needle

private theorem Stops.tail {needle x : Text} {c : Char} (h : Stops needle (c :: x)) (hx : x ≠ []) : Stops needle x := by
  obtain ⟨d, hd, hn⟩ := h
  obtain ⟨e, y, rfl⟩ := List.exists_cons_of_ne_nil hx
  exact ⟨d, by rwa [List.getLast?_cons_cons] at hd, hn⟩

theorem startsWith_append {needle x : Text} (hx : Stops needle x) (y : Text) :
    startsWith (x ++ y) needle = startsWith x needle := by
  rw [startsWith, startsWith, Bool.eq_iff_iff, List.isPrefixOf_iff_prefix, List.isPrefixOf_iff_prefix]
  refine ⟨fun h => ?_, fun h => h.trans (List.prefix_append x y)⟩
  rcases List.prefix_or_prefix_of_prefix h (List.prefix_append x y) with h | h
  · exact h
  · obtain ⟨c, hc, hn⟩ := hx
    exact absurd (h.subset (List.mem_of_getLast? hc)) hn

theorem contains_cons (needle : Text) (c : Char) (x : Text) :
    contains needle (c :: x) = (startsWith (c :: x) needle || contains needle x) := rfl

theorem contains_append {needle x : Text} (hx : Stops needle x) (y : Text) :
    contains needle (x ++ y) = (contains needle x || contains needle y) := by
  induction x with
  | nil =>
    obtain ⟨c, hc, _⟩ := hx
    cases hc
  | cons c x ih =>
    have hfront : startsWith (c :: (x ++ y)) needle = startsWith (c :: x) needle := startsWith_append hx y
    rw [List.cons_append, contains_cons, contains_cons, hfront, Bool.or_assoc]
    by_cases hnil : x = []
    · subst hnil
      cases needle with
      | nil => rfl
      | cons d needle => rfl
    · rw [ih (hx.tail hnil)]

theorem contains_flatten {needle : Text} (hn : needle ≠ []) {ls : List Text} (hc : ls.Pairwise fun line _ => Stops needle line) :
    contains needle ls.flatten = ls.any (contains needle) := by
  induction ls with
  | nil =>
    cases needle with
    | nil => exact absurd rfl hn
    | cons c needle => rfl
  | cons line ls ih =>
    rw [List.pairwise_cons] at hc
    cases ls with
    | nil => simp
    | cons next ls =>
      rw [List.flatten_cons, contains_append (hc.1 next List.mem_cons_self), ih hc.2]
      rfl

theorem contains_iff_infix {needle x : Text} : contains needle x = true ↔ needle <:+: x := by
  induction x with
  | nil => rw [List.infix_nil, ← List.isEmpty_iff]; rfl
  | cons c x ih => rw [contains_cons, Bool.or_eq_true, ih, startsWith, List.isPrefixOf_iff_prefix, List.infix_cons_iff]

/-! ### The message size -/

theorem not_digit_of_isLineBreak {c : Char} (h : isLineBreak c = true) : isUnicodeDigit c = false := by
  have hall : ∀ n ∈ [0x0A, 0x0B, 0x0C, 0x0D, 0x1C, 0x1D, 0x1E, 0x85, 0x2028, 0x2029],
      (digitBlocks.any fun d => d ≤ n ∧ n < d + 10) = false := by decide
  exact hall c.toNat (of_decide_eq_true h)

theorem not_mem_of_isLineBreak {needle : Text} (hn : needle.all (fun c => !isLineBreak c) = true) {c : Char}
    (h : isLineBreak c = true) : c ∉ needle := by
  intro hmem
  have hno := List.all_eq_true.mp hn c hmem
  rw [h] at hno
  cases hno

theorem stops_of_closed {needle x : Text} (hn : needle.all (fun c => !isLineBreak c) = true) (hx : Closed (codes x)) :
    Stops needle x := by
  obtain ⟨c, hc, hb⟩ := closed_codes.mp hx
  exact ⟨c, hc, not_mem_of_isLineBreak hn hb⟩

/-- The digits after the attribute's name end before the line does. -/
private theorem digits_append {x : Text} (hx : Closed (codes x)) (hfront : startsWith x maxMessageSizePrefix = true) (y : Text) :
    ((x ++ y).drop maxMessageSizePrefix.length).takeWhile isUnicodeDigit =
        (x.drop maxMessageSizePrefix.length).takeWhile isUnicodeDigit ∧
      maxMessageSizePrefix.length + ((x.drop maxMessageSizePrefix.length).takeWhile isUnicodeDigit).length < x.length := by
  obtain ⟨z, rfl⟩ := List.isPrefixOf_iff_prefix.mp hfront
  obtain ⟨c, hc, hb⟩ := closed_codes.mp hx
  have hz : z ≠ [] := by
    rintro rfl
    rw [List.append_nil] at hc
    exact not_mem_of_isLineBreak (by decide) hb (List.mem_of_getLast? hc)
  rw [List.getLast?_append_of_ne_nil _ hz] at hc
  have hshort : (z.takeWhile isUnicodeDigit).length ≠ z.length := by
    intro hlen
    have hall := List.takeWhile_eq_self_iff.mp ((List.takeWhile_prefix isUnicodeDigit).eq_of_length hlen)
    have hdigit := hall c (List.mem_of_getLast? hc)
    rw [not_digit_of_isLineBreak hb] at hdigit
    cases hdigit
  have hle := (List.takeWhile_prefix isUnicodeDigit (l := z)).length_le
  rw [List.append_assoc, List.drop_left, List.drop_left, List.takeWhile_append, if_neg hshort, List.length_append]
  exact ⟨rfl, by omega⟩

/-- What is substituted in a line does not depend on the lines after it. -/
theorem substituteSize_append (value : Nat) {x : Text} (hx : Closed (codes x)) {skip : Nat} (hs : skip < x.length) (y : Text) :
    substituteSize value skip (x ++ y) = substituteSize value skip x ++ substituteSize value 0 y := by
  have hstop : ∀ {x : Text}, Closed (codes x) → Stops maxMessageSizePrefix x := fun h => stops_of_closed (by decide) h
  induction x generalizing skip with
  | nil => cases hs
  | cons c x ih =>
    have hrest : ∀ {skip : Nat}, skip < x.length → substituteSize value skip (x ++ y) =
        substituteSize value skip x ++ substituteSize value 0 y := by
      intro skip hskip
      apply ih _ hskip
      have hne : codes x ≠ [] := by
        intro h
        rw [codes, List.map_eq_nil_iff] at h
        subst h
        cases hskip
      exact (closed_append (s := [CodePoint.ofChar c]) hne).mp hx
    cases skip with
    | succ skip => exact hrest (Nat.lt_of_succ_lt_succ hs)
    | zero =>
      by_cases hfront : startsWith (c :: x) maxMessageSizePrefix = true
      · obtain ⟨hdigits, hlen⟩ := digits_append hx hfront y
        have hfront' : startsWith (c :: (x ++ y)) maxMessageSizePrefix = true := (startsWith_append (hstop hx) y).trans hfront
        rw [List.cons_append, substituteSize, substituteSize, hfront, hfront', ← List.cons_append, hdigits]
        split
        · have hname : 0 < maxMessageSizePrefix.length := by decide
          rw [List.length_cons] at hlen
          rw [hrest (by omega)]
          simp only [List.append_assoc]
        · by_cases hnil : x = []
          · subst hnil
            rfl
          · rw [hrest (List.length_pos_of_ne_nil hnil), List.cons_append]
      · have hfront' : ¬ startsWith (c :: (x ++ y)) maxMessageSizePrefix = true := by
          rw [show startsWith (c :: (x ++ y)) maxMessageSizePrefix = _ from startsWith_append (hstop hx) y]
          exact hfront
        rw [List.cons_append, substituteSize, substituteSize, if_neg fun h => hfront' h.1, if_neg fun h => hfront h.1]
        by_cases hnil : x = []
        · subst hnil
          rfl
        · rw [hrest (List.length_pos_of_ne_nil hnil), List.cons_append]

theorem substituteSize_flatten (value : Nat) {ls : List Text} (hc : ls.Pairwise fun line _ => Closed (codes line)) :
    substituteSize value 0 ls.flatten = (ls.map (substituteSize value 0)).flatten := by
  induction ls with
  | nil => rfl
  | cons line ls ih =>
    rw [List.pairwise_cons] at hc
    cases ls with
    | nil => simp
    | cons next ls =>
      have hclosed := hc.1 next List.mem_cons_self
      have hne : 0 < line.length := by
        obtain ⟨c, hmem, _⟩ := closed_codes.mp hclosed
        exact List.length_pos_of_mem (List.mem_of_getLast? hmem)
      rw [List.flatten_cons, substituteSize_append value hclosed hne, ih hc.2]
      rfl

/-- Nothing is substituted where the attribute is not. -/
theorem substituteSize_of_not_contains (value : Nat) {x : Text} (h : contains maxMessageSizePrefix x = false) :
    substituteSize value 0 x = x := by
  induction x with
  | nil => rfl
  | cons c x ih =>
    rw [contains_cons, Bool.or_eq_false_iff] at h
    rw [substituteSize, if_neg (by simp [h.1]), ih h.2]

private theorem substituteSize_skip (value : Nat) (x y : Text) : substituteSize value x.length (x ++ y) = substituteSize value 0 y := by
  induction x with
  | nil => rfl
  | cons c x ih => exact ih

/-- The digits of an attribute are replaced. -/
theorem substituteSize_attribute (value : Nat) {digits tail : Text} (hd : digits ≠ []) (hall : ∀ c ∈ digits, isUnicodeDigit c = true)
    (ht : ∀ c ∈ tail, isLineBreak c = true) :
    substituteSize value 0 (maxMessageSizePrefix ++ digits ++ tail) = maxMessageSizePrefix ++ decimal value ++ tail := by
  have hdigits : ((maxMessageSizePrefix ++ digits ++ tail).drop maxMessageSizePrefix.length).takeWhile isUnicodeDigit = digits := by
    rw [List.append_assoc, List.drop_left, List.takeWhile_append_of_pos hall]
    cases tail with
    | nil => simp
    | cons c tail => simp [not_digit_of_isLineBreak (ht c List.mem_cons_self)]
  have hfront : startsWith (maxMessageSizePrefix ++ digits ++ tail) maxMessageSizePrefix = true := by
    rw [startsWith, List.isPrefixOf_iff_prefix, List.append_assoc]
    exact List.prefix_append _ _
  have htail : substituteSize value 0 tail = tail := by
    apply substituteSize_of_not_contains
    rw [← Bool.not_eq_true, contains_iff_infix]
    intro hcand
    exact absurd (ht 'a' (List.IsInfix.subset hcand (by decide))) (by decide)
  have hcons : maxMessageSizePrefix ++ digits ++ tail = 'a' :: ((maxMessageSizePrefix.tail ++ digits) ++ tail) := rfl
  have hlen : maxMessageSizePrefix.length + digits.length - 1 = (maxMessageSizePrefix.tail ++ digits).length := by
    rw [List.length_append, show maxMessageSizePrefix.length = maxMessageSizePrefix.tail.length + 1 from rfl]
    omega
  rw [hcons] at hdigits hfront
  rw [hcons, substituteSize, hdigits, if_pos ⟨hfront, hd⟩, hlen, substituteSize_skip, htail]

end NetherNet.Sdp
