import Mathlib.Data.List.Chain
import Mathlib.Data.List.DropRight
import NetherNet.Library.Unicode

/-! Lines of a string: `str.splitlines`, `str.strip`, and what becomes of the lines
when some are taken out or one is put in. -/
namespace NetherNet.Library

def carriageReturn : CodePoint := 0x0D
def lineFeed : CodePoint := 0x0A

/-- The line boundaries of `str.splitlines`. -/
def isLineBreak (c : CodePoint) : Bool :=
  c.val ∈ [0x0A, 0x0B, 0x0C, 0x0D, 0x1C, 0x1D, 0x1E, 0x85, 0x2028, 0x2029]

/-- `str.isspace` of one character, as `strip` uses it. -/
def isSpace (c : CodePoint) : Bool :=
  let n := c.val
  (9 ≤ n ∧ n ≤ 13) ∨ (0x1C ≤ n ∧ n ≤ 0x20) ∨ n = 0x85 ∨ n = 0xA0 ∨ n = 0x1680 ∨
    (0x2000 ≤ n ∧ n ≤ 0x200A) ∨ n = 0x2028 ∨ n = 0x2029 ∨ n = 0x202F ∨ n = 0x205F ∨ n = 0x3000

/-- `splitlines(keepends=True)`; a carriage return and the line feed after it are one break. -/
def lines : Str → List Str
  | [] => []
  | c :: rest =>
    if isLineBreak c ∧ ¬ (c = carriageReturn ∧ rest.head? = some lineFeed) then [c] :: lines rest
    else
      match lines rest with
      | [] => [[c]]
      | line :: more => (c :: line) :: more

/-- `splitlines()`. -/
def bareLines (s : Str) : List Str := (lines s).map (List.rdropWhile isLineBreak)

def strip (s : Str) : Str := (s.rdropWhile isSpace).dropWhile isSpace

/-- The text ends in a line break. -/
def Closed (s : Str) : Prop := ∃ c ∈ s.getLast?, isLineBreak c = true

/-- The line feed at the head of `t` belongs to the break that ends `s`. -/
def Merges (s t : Str) : Prop := s.getLast? = some carriageReturn ∧ t.head? = some lineFeed

theorem isSpace_of_isLineBreak {c : CodePoint} (h : isLineBreak c = true) : isSpace c = true := by
  simp only [isLineBreak, List.mem_cons, List.not_mem_nil, or_false, decide_eq_true_eq] at h
  simp only [isSpace, decide_eq_true_eq]
  omega

/-! ### Stripping -/

private theorem dropWhile_dropWhile {α : Type} {p q : α → Bool} (h : ∀ a, q a = true → p a = true) (l : List α) :
    (l.dropWhile q).dropWhile p = l.dropWhile p := by
  induction l with
  | nil => rfl
  | cons a l ih =>
    by_cases ha : q a = true
    · rw [List.dropWhile_cons_of_pos ha, ih, List.dropWhile_cons_of_pos (h a ha)]
    · rw [List.dropWhile_cons_of_neg ha]

/-- The break at its end is no part of a stripped line. -/
theorem strip_bare (line : Str) : strip (line.rdropWhile isLineBreak) = strip line := by
  unfold strip List.rdropWhile
  rw [List.reverse_reverse, dropWhile_dropWhile fun _ => isSpace_of_isLineBreak]

theorem strip_concat (line : Str) {c : CodePoint} (h : isSpace c = true) : strip (line ++ [c]) = strip line := by
  unfold strip
  rw [List.rdropWhile_concat_pos _ _ _ h]

theorem strip_append {line tail : Str} (h : ∀ c ∈ tail, isSpace c = true) : strip (line ++ tail) = strip line := by
  induction tail using List.reverseRecOn with
  | nil => rw [List.append_nil]
  | append_singleton tail c ih =>
    rw [← List.append_assoc, strip_concat _ (h c (by simp)), ih fun d hd => h d (List.mem_append_left _ hd)]

/-- A text without space is its own strip. -/
theorem strip_of_no_space {s : Str} (h : ∀ c ∈ s, isSpace c = false) : strip s = s := by
  have hright : s.rdropWhile isSpace = s := by
    rw [List.rdropWhile_eq_self_iff]
    intro hne
    simp [h _ (List.getLast_mem hne)]
  rw [strip, hright]
  cases s with
  | nil => rfl
  | cons c s => exact List.dropWhile_cons_of_neg (by simp [h c List.mem_cons_self])

/-! ### Lines -/

@[simp] theorem lines_nil : lines [] = [] := rfl

theorem lines_cons_break {c : CodePoint} {rest : Str} (hc : isLineBreak c = true)
    (hr : ¬ (c = carriageReturn ∧ rest.head? = some lineFeed)) : lines (c :: rest) = [c] :: lines rest := by
  rw [lines, if_pos ⟨hc, hr⟩]

theorem lines_cons_inner {c : CodePoint} {rest line : Str} {more : List Str}
    (hc : ¬ (isLineBreak c = true ∧ ¬ (c = carriageReturn ∧ rest.head? = some lineFeed))) (hr : lines rest = line :: more) :
    lines (c :: rest) = (c :: line) :: more := by
  rw [lines, if_neg hc, hr]

theorem lines_ne_nil {s : Str} (h : s ≠ []) : lines s ≠ [] := by
  cases s with
  | nil => exact absurd rfl h
  | cons c rest =>
    rw [lines]
    split
    · simp
    · split <;> simp

theorem flatten_lines (s : Str) : (lines s).flatten = s := by
  induction s with
  | nil => rfl
  | cons c rest ih =>
    rw [lines]
    split
    · rw [List.flatten_cons, ih, List.singleton_append]
    · split
      · next hr =>
        rw [hr] at ih
        rw [← ih]
        rfl
      · next line more hr =>
        rw [hr, List.flatten_cons] at ih
        rw [List.flatten_cons, List.cons_append, ih]

/-- Where no break is torn apart, the lines of two texts are the lines of their concatenation. -/
theorem lines_append {s t : Str} (hs : Closed s) (hm : ¬ Merges s t) : lines (s ++ t) = lines s ++ lines t := by
  induction s with
  | nil =>
    obtain ⟨c, hc, _⟩ := hs
    exact absurd hc (by simp)
  | cons c rest ih =>
    cases rest with
    | nil =>
      have hc : isLineBreak c = true := by
        obtain ⟨d, hd, hbreak⟩ := hs
        obtain rfl : c = d := by simpa using hd
        exact hbreak
      have ht : ¬ (c = carriageReturn ∧ t.head? = some lineFeed) := by
        rintro ⟨rfl, ht⟩
        exact hm ⟨rfl, ht⟩
      have hn : ¬ (c = carriageReturn ∧ ([] : Str).head? = some lineFeed) := by simp
      rw [List.singleton_append, lines_cons_break hc ht, lines_cons_break hc hn]
      rfl
    | cons d rest =>
      have hlast : (c :: d :: rest).getLast? = (d :: rest).getLast? := List.getLast?_cons_cons ..
      have hrest : lines (d :: rest ++ t) = lines (d :: rest) ++ lines t := by
        apply ih
        · unfold Closed at hs ⊢
          rwa [hlast] at hs
        · unfold Merges at hm ⊢
          rwa [hlast] at hm
      have hhead : ((d :: rest) ++ t).head? = (d :: rest).head? := rfl
      by_cases hc : isLineBreak c = true ∧ ¬ (c = carriageReturn ∧ (d :: rest).head? = some lineFeed)
      · rw [List.cons_append, lines_cons_break hc.1 (hhead ▸ hc.2), lines_cons_break hc.1 hc.2, hrest]
        rfl
      · obtain ⟨line, more, hl⟩ := List.exists_cons_of_ne_nil (lines_ne_nil (List.cons_ne_nil d rest))
        have hcut := lines_cons_inner hc hl
        rw [List.cons_append, lines_cons_inner (hhead ▸ hc) (hl ▸ hrest), hcut]
        rfl

/-- The text after the first line has the other lines. -/
theorem lines_tail {s line : Str} (more : List Str) (h : lines s = line :: more) : lines more.flatten = more := by
  induction s generalizing line more with
  | nil => exact absurd h (by simp)
  | cons c rest ih =>
    by_cases hc : isLineBreak c = true ∧ ¬ (c = carriageReturn ∧ rest.head? = some lineFeed)
    · rw [lines_cons_break hc.1 hc.2] at h
      rw [← (List.cons.inj h).2, flatten_lines]
    · cases hr : lines rest with
      | nil =>
        rw [lines, if_neg hc, hr] at h
        rw [← (List.cons.inj h).2]
        rfl
      | cons first others =>
        rw [lines_cons_inner hc hr] at h
        rw [← (List.cons.inj h).2]
        exact ih others hr

/-- The lines from some place on are the lines of their text. -/
theorem lines_drop {s : Str} {before after : List Str} (h : lines s = before ++ after) : lines after.flatten = after := by
  induction before generalizing s with
  | nil => rw [← show lines s = after from h, flatten_lines]
  | cons line before ih => exact ih (lines_tail (before ++ after) h)

theorem closed_append {s t : Str} (ht : t ≠ []) : Closed (s ++ t) ↔ Closed t := by
  unfold Closed
  rw [List.getLast?_append_of_ne_nil _ ht]

/-- A text that is one line. -/
def IsLine (s : Str) : Prop := lines s = [s]

theorem isLine_of_mem {s line : Str} (h : line ∈ lines s) : IsLine line := by
  induction s generalizing line with
  | nil => exact absurd h (by simp)
  | cons c rest ih =>
    by_cases hc : isLineBreak c = true ∧ ¬ (c = carriageReturn ∧ rest.head? = some lineFeed)
    · rw [lines_cons_break hc.1 hc.2] at h
      obtain rfl | h := List.mem_cons.mp h
      · exact lines_cons_break hc.1 (by simp)
      · exact ih h
    · cases hr : lines rest with
      | nil =>
        rw [lines, if_neg hc, hr, List.mem_singleton] at h
        obtain rfl := h
        obtain rfl : rest = [] := by rw [← flatten_lines rest, hr]; rfl
        rw [IsLine, lines, if_neg hc]
        rfl
      | cons first others =>
        rw [lines_cons_inner hc hr] at h
        obtain rfl | h := List.mem_cons.mp h
        · have hfirst : IsLine first := ih (by rw [hr]; exact List.mem_cons_self)
          apply lines_cons_inner _ hfirst
          rintro ⟨hb, hn⟩
          apply hc
          refine ⟨hb, ?_⟩
          rintro ⟨hcr, hlf⟩
          apply hn
          refine ⟨hcr, ?_⟩
          have hne : first ≠ [] := by
            rintro rfl
            exact absurd hfirst (by simp [IsLine])
          rw [← flatten_lines rest, hr, List.flatten_cons, List.head?_append_of_ne_nil _ hne] at hlf
          exact hlf
        · exact ih (by rw [hr]; exact List.mem_cons_of_mem _ h)

/-- Every line that another one follows ends in a break. -/
theorem lines_closed (s : Str) : (lines s).Pairwise fun line _ => Closed line := by
  induction s with
  | nil => exact List.Pairwise.nil
  | cons c rest ih =>
    by_cases hc : isLineBreak c = true ∧ ¬ (c = carriageReturn ∧ rest.head? = some lineFeed)
    · rw [lines_cons_break hc.1 hc.2]
      exact List.pairwise_cons.mpr ⟨fun _ _ => ⟨c, rfl, hc.1⟩, ih⟩
    · cases hr : lines rest with
      | nil =>
        rw [lines, if_neg hc, hr]
        exact List.pairwise_singleton _ _
      | cons first others =>
        rw [lines_cons_inner hc hr]
        rw [hr, List.pairwise_cons] at ih
        refine List.pairwise_cons.mpr ⟨fun line hl => ?_, ih.2⟩
        obtain ⟨d, hd, hb⟩ := ih.1 line hl
        refine ⟨d, ?_, hb⟩
        cases first with
        | nil => exact absurd hd (by simp)
        | cons e first => rwa [List.getLast?_cons_cons]

/-! ### Texts put together from lines -/

theorem IsLine.ne_nil {line : Str} (h : IsLine line) : line ≠ [] := by
  rintro rfl
  cases h

/-- What stands before the break of a line is of no account. -/
theorem isLine_append {body tail : Str} (hb : ∀ c ∈ body, isLineBreak c = false) (hne : body ≠ []) :
    IsLine (body ++ tail) ↔ tail = [] ∨ IsLine tail := by
  induction body with
  | nil => exact absurd rfl hne
  | cons c body ih =>
    have hc : ∀ rest : Str, ¬ (isLineBreak c = true ∧ ¬ (c = carriageReturn ∧ rest.head? = some lineFeed)) := by
      intro rest h
      rw [hb c List.mem_cons_self] at h
      exact absurd h.1 Bool.false_ne_true
    have hcons : ∀ {rest : Str}, rest ≠ [] → (IsLine (c :: rest) ↔ IsLine rest) := by
      intro rest hrest
      obtain ⟨line, more, hl⟩ := List.exists_cons_of_ne_nil (lines_ne_nil hrest)
      rw [IsLine, lines_cons_inner (hc rest) hl, IsLine, hl]
      simp
    by_cases hbody : body = []
    · subst hbody
      by_cases htail : tail = []
      · subst htail
        refine iff_of_true ?_ (.inl rfl)
        rw [List.append_nil, IsLine, lines, if_neg (hc [])]
        rfl
      · rw [List.cons_append, hcons (by simpa using htail), List.nil_append, or_iff_right htail]
    · rw [List.cons_append, hcons (by simp [hbody]), ih (fun d hd => hb d (List.mem_cons_of_mem _ hd)) hbody]

/-- Two lines that are still two when the second is put after the first. -/
def Apart (a b : Str) : Prop := Closed a ∧ ¬ Merges a b

theorem lines_apart (s : Str) : (lines s).IsChain Apart := by
  induction s with
  | nil => exact List.isChain_nil
  | cons c rest ih =>
    by_cases hc : isLineBreak c = true ∧ ¬ (c = carriageReturn ∧ rest.head? = some lineFeed)
    · rw [lines_cons_break hc.1 hc.2, List.isChain_cons]
      refine ⟨fun next hnext => ⟨⟨c, rfl, hc.1⟩, fun hm => hc.2 ⟨Option.some.inj hm.1, ?_⟩⟩, ih⟩
      obtain ⟨more, hmore⟩ : ∃ more, lines rest = next :: more := by
        cases hl : lines rest with
        | nil =>
          rw [hl] at hnext
          cases hnext
        | cons first more =>
          rw [hl] at hnext
          exact ⟨more, by rw [Option.some.inj hnext]⟩
      have hline : IsLine next := isLine_of_mem (s := rest) (by simp [hmore])
      rw [← flatten_lines rest, hmore, List.flatten_cons, List.head?_append_of_ne_nil _ hline.ne_nil]
      exact hm.2
    · cases hr : lines rest with
      | nil =>
        rw [lines, if_neg hc, hr]
        exact List.isChain_singleton _
      | cons first others =>
        rw [lines_cons_inner hc hr]
        rw [hr] at ih
        cases others with
        | nil => exact List.isChain_singleton _
        | cons next others =>
          rw [List.isChain_cons_cons] at ih ⊢
          obtain ⟨⟨⟨d, hd, hb⟩, hm⟩, hrest⟩ := ih
          cases first with
          | nil => cases hd
          | cons e first =>
            have hlast : (c :: e :: first).getLast? = (e :: first).getLast? := List.getLast?_cons_cons ..
            refine ⟨⟨⟨d, by rw [hlast]; exact hd, hb⟩, fun h => hm ⟨?_, h.2⟩⟩, hrest⟩
            rw [← hlast]
            exact h.1

private theorem head?_flatten {line : Str} (ls : List Str) (h : IsLine line) : (line :: ls).flatten.head? = line.head? := by
  rw [List.flatten_cons, List.head?_append_of_ne_nil _ h.ne_nil]

/-- Lines that stay apart are the lines of the text they make. -/
theorem lines_flatten {ls : List Str} (hl : ∀ line ∈ ls, IsLine line) (hc : ls.IsChain Apart) : lines ls.flatten = ls := by
  induction ls with
  | nil => rfl
  | cons line ls ih =>
    have hrest := ih (fun l h => hl l (List.mem_cons_of_mem _ h)) hc.tail
    cases ls with
    | nil =>
      rw [List.flatten_cons, List.flatten_nil, List.append_nil]
      exact hl line List.mem_cons_self
    | cons next ls =>
      obtain ⟨hclosed, hm⟩ := (List.isChain_cons_cons.mp hc).1
      have hapart : ¬ Merges line (next :: ls).flatten := by
        rintro ⟨hcr, hlf⟩
        rw [head?_flatten ls (hl next (by simp))] at hlf
        exact hm ⟨hcr, hlf⟩
      rw [List.flatten_cons, lines_append hclosed hapart, hrest, hl line List.mem_cons_self]
      rfl

/-! ### What the lines hold -/

/-- The stripped lines that are not blank. -/
def content (s : Str) : List Str := ((lines s).map strip).filter fun line => !line.isEmpty

private theorem lineFeed_first {s : Str} (h : s.head? = some lineFeed) : ∃ t, s = lineFeed :: t ∧ lines s = [lineFeed] :: lines t := by
  cases s with
  | nil => exact absurd h (by simp)
  | cons c t =>
    obtain rfl : c = lineFeed := Option.some.inj h
    exact ⟨t, rfl, lines_cons_break (by decide) fun hcr => absurd hcr.1 (by decide)⟩

/-- Where the break of a line takes the next line's line feed, both lines stay what they are without it. -/
private theorem lines_merge {s t : Str} (hs : IsLine s) (hm : s.getLast? = some carriageReturn) :
    lines (s ++ lineFeed :: t) = (s ++ [lineFeed]) :: lines t := by
  induction s with
  | nil => exact absurd hm (by simp)
  | cons c rest ih =>
    cases rest with
    | nil =>
      obtain rfl : c = carriageReturn := by simpa using hm
      have hlf : lines (lineFeed :: t) = [lineFeed] :: lines t := by
        obtain ⟨u, hu, hl⟩ := lineFeed_first (s := lineFeed :: t) rfl
        obtain rfl := (List.cons.inj hu).2
        exact hl
      exact lines_cons_inner (by simp) hlf
    | cons d rest =>
      have hc : ¬ (isLineBreak c = true ∧ ¬ (c = carriageReturn ∧ (d :: rest).head? = some lineFeed)) := by
        rintro ⟨hb, hn⟩
        have hcut := lines_cons_break hb hn
        rw [hs] at hcut
        exact absurd (List.cons.inj hcut).1 (by simp)
      have hrest : IsLine (d :: rest) := by
        obtain ⟨line, more, hl⟩ := List.exists_cons_of_ne_nil (lines_ne_nil (List.cons_ne_nil d rest))
        have hcut := lines_cons_inner hc hl
        rw [hs] at hcut
        have hline := (List.cons.inj (List.cons.inj hcut).1).2
        rw [IsLine, hl, ← hline, ← (List.cons.inj hcut).2]
      rw [List.getLast?_cons_cons] at hm
      exact lines_cons_inner hc (ih hrest hm)

private theorem content_append {s t : Str} (hs : IsLine s) (hc : Closed s) :
    content (s ++ t) = ([strip s].filter fun line => !line.isEmpty) ++ content t := by
  by_cases hm : Merges s t
  · obtain ⟨u, rfl, hu⟩ := lineFeed_first hm.2
    have hblank : strip [lineFeed] = [] := by decide
    have hsame : strip (s ++ [lineFeed]) = strip s := strip_concat s (by decide)
    simp only [content]
    rw [lines_merge hs hm.1, hu, List.map_cons, List.map_cons, hsame, hblank, ← List.singleton_append, List.filter_append]
    rfl
  · simp only [content]
    rw [lines_append hc hm, hs, List.map_append, List.filter_append]
    rfl

/-- Lines put together hold what each of them holds. -/
theorem content_flatten {ls : List Str} (hl : ∀ line ∈ ls, IsLine line) (hc : ls.Pairwise fun line _ => Closed line) :
    content ls.flatten = (ls.map strip).filter fun line => !line.isEmpty := by
  induction ls with
  | nil => rfl
  | cons line ls ih =>
    rw [List.pairwise_cons] at hc
    have hrest := ih (fun l h => hl l (List.mem_cons_of_mem _ h)) hc.2
    cases ls with
    | nil =>
      rw [List.flatten_cons, List.flatten_nil, List.append_nil, content, hl line List.mem_cons_self]
    | cons next ls =>
      rw [List.flatten_cons, content_append (hl line List.mem_cons_self) (hc.1 next List.mem_cons_self), hrest,
        ← List.filter_append]
      rfl

/-- Lines taken out of a text take away what they hold and nothing else. -/
theorem content_filter (s : Str) (keep : Str → Bool) :
    content ((lines s).filter keep).flatten = (((lines s).filter keep).map strip).filter fun line => !line.isEmpty :=
  content_flatten (fun _ h => isLine_of_mem (List.mem_of_mem_filter h)) ((lines_closed s).filter keep)

/-- A line of a text that was put together is one of its parts, or takes a line feed from the next. -/
theorem mem_lines_flatten {ls : List Str} (hl : ∀ line ∈ ls, IsLine line) (hc : ls.Pairwise fun line _ => Closed line) {line : Str}
    (h : line ∈ lines ls.flatten) : line ∈ ls ∨ ∃ part ∈ ls, Closed part ∧ line = part ++ [lineFeed] := by
  induction ls with
  | nil => cases h
  | cons first ls ih =>
    have hfirst := hl first List.mem_cons_self
    rw [List.pairwise_cons] at hc
    have hrest : line ∈ lines ls.flatten → line ∈ first :: ls ∨ ∃ part ∈ first :: ls, Closed part ∧ line = part ++ [lineFeed] := by
      intro hmem
      obtain hin | ⟨part, hin, hpart⟩ := ih (fun l h => hl l (List.mem_cons_of_mem _ h)) hc.2 hmem
      · exact .inl (List.mem_cons_of_mem _ hin)
      · exact .inr ⟨part, List.mem_cons_of_mem _ hin, hpart⟩
    cases ls with
    | nil =>
      rw [List.flatten_cons, List.flatten_nil, List.append_nil, hfirst] at h
      exact .inl h
    | cons next ls =>
      have hclosed := hc.1 next List.mem_cons_self
      rw [List.flatten_cons] at h
      by_cases hmerge : Merges first (next :: ls).flatten
      · obtain ⟨u, hu, hlines⟩ := lineFeed_first hmerge.2
        rw [hu, lines_merge hfirst hmerge.1] at h
        obtain rfl | h := List.mem_cons.mp h
        · exact .inr ⟨first, List.mem_cons_self, hclosed, rfl⟩
        · exact hrest (by rw [hlines]; exact List.mem_cons_of_mem _ h)
      · rw [lines_append hclosed hmerge, hfirst] at h
        obtain rfl | h := List.mem_cons.mp h
        · exact .inl List.mem_cons_self
        · exact hrest h

/-- Lines may be taken out of a text after others were: where no line that goes takes the line
feed of an empty line with it, the rest stays as it is. -/
theorem flatten_filter {ls : List Str} {keep : Str → Bool} (hl : ∀ line ∈ ls, IsLine line)
    (hc : ls.Pairwise fun line _ => Closed line) (hk : ∀ line ∈ ls, keep (line ++ [lineFeed]) = keep line)
    (hblank : keep [lineFeed] = true) (hm : ls.IsChain fun a b => keep a = false → ¬ Merges a b) :
    ((lines ls.flatten).filter keep).flatten = (ls.filter keep).flatten := by
  induction ls with
  | nil => rfl
  | cons line ls ih =>
    have hline := hl line List.mem_cons_self
    rw [List.pairwise_cons] at hc
    have hrest := ih (fun l h => hl l (List.mem_cons_of_mem _ h)) hc.2 (fun l h => hk l (List.mem_cons_of_mem _ h)) hm.tail
    cases ls with
    | nil =>
      rw [List.flatten_cons, List.flatten_nil, List.append_nil, hline]
    | cons next ls =>
      have hclosed := hc.1 next List.mem_cons_self
      by_cases hmerge : Merges line (next :: ls).flatten
      · obtain ⟨u, hu, hlines⟩ := lineFeed_first hmerge.2
        have hkeep : keep line = true := by
          rw [← Bool.not_eq_false]
          intro hgone
          refine (List.isChain_cons_cons.mp hm).1 hgone ⟨hmerge.1, ?_⟩
          rw [← head?_flatten ls (hl next (by simp))]
          exact hmerge.2
        rw [hlines, List.filter_cons_of_pos hblank, List.flatten_cons] at hrest
        have hsame : keep (line ++ [lineFeed]) = true := (hk line List.mem_cons_self).trans hkeep
        rw [List.flatten_cons, hu, lines_merge hline hmerge.1, List.filter_cons_of_pos hsame, List.filter_cons_of_pos hkeep,
          List.flatten_cons, List.flatten_cons, ← hrest, List.append_assoc]
      · rw [List.flatten_cons, lines_append hclosed hmerge, hline, List.singleton_append]
        by_cases hkeep : keep line = true
        · rw [List.filter_cons_of_pos hkeep, List.filter_cons_of_pos hkeep, List.flatten_cons, hrest, List.flatten_cons]
        · rw [List.filter_cons_of_neg hkeep, List.filter_cons_of_neg hkeep, hrest]

end NetherNet.Library
