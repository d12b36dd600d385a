import NetherNet.Session.Session
import NetherNet.Transport.SdpLines

/-! What is sent of a local description: the three passes over it, and what they keep. -/
namespace NetherNet.Sdp
open Library hiding isLineBreak isSpace strip content

/-- A description as aiortc emits it: the port lines have a line break, the attribute's name
stands at the start of a line with digits alone after it, and no line has space around it. -/
structure Emitted (sdp : Text) : Prop where
  terminated : ∀ line ∈ splitLines sdp, startsWith line sctpPort = true → ∃ c ∈ line.getLast?, isLineBreak c = true
  digits : ∀ line ∈ splitLines sdp, contains maxMessageSizePrefix line = true → ∃ digits tail,
    line = maxMessageSizePrefix ++ digits ++ tail ∧ digits ≠ [] ∧ (∀ c ∈ digits, isUnicodeDigit c = true) ∧
      ∀ c ∈ tail, isLineBreak c = true
  bare : ∀ line ∈ splitLines sdp, strip line = line.rdropWhile isLineBreak

def isCandidate (line : Text) : Bool := startsWith (strip line) candidatePrefix

/-- A candidate line that `keep_only_relay_candidates` drops. -/
def isHost (line : Text) : Bool := startsWith line candidatePrefix ∧ ¬ contains typRelay line

def isAttribute (line : Text) : Bool := startsWith (strip line) maxMessageSizePrefix

/-- The attribute that every description sent has. -/
def sizeAttribute : Text := maxMessageSizePrefix ++ decimal maxMessageSize

/-- Neither a candidate line, nor the end of the candidates, nor the attribute. -/
def isOther (line : Text) : Bool := ¬ isCandidate line ∧ strip line ≠ endOfCandidates ∧ ¬ isAttribute line

/-- But for attributes, `sent` is the other lines of the description, in order, character for character. -/
def KeepsOthers (sdp sent : Text) : Prop :=
  ∃ kept : List Text, sent = kept.flatten ∧ (kept.filter fun line => !isAttribute line) = (splitLines sdp).filter isOther ∧
    ∀ line ∈ kept, isAttribute line = true → strip line = sizeAttribute

/-- Once the other candidates are dropped, no line that goes next stands with a lone carriage
return before an empty line that is a lone line feed. -/
def Unmerged (sdp : Text) : Prop :=
  ((splitLines sdp).filter fun line => !isHost line).IsChain fun a b =>
    isCandidate a = true ∨ strip a = endOfCandidates → ¬ (a.getLast? = some '\r' ∧ b.head? = some '\n')

/-- A line without space around it starts with what it starts with stripped. -/
private theorem Emitted.startsWith {sdp line name : Text} (h : Emitted sdp) (hline : line ∈ splitLines sdp)
    (hs : startsWith (strip line) name = true) : startsWith line name = true := by
  rw [h.bare line hline, Sdp.startsWith, List.isPrefixOf_iff_prefix] at hs
  exact List.isPrefixOf_iff_prefix.mpr (hs.trans (List.rdropWhile_prefix _ _))

/-! ### The first pass -/

/-- What the first pass makes of a line; `present` tells whether the attribute is in the text. -/
inductive Rewritten (present : Bool) : Text → List Text → Prop where
  | same (line : Text) (hc : contains maxMessageSizePrefix line = false) (hp : startsWith line sctpPort = true → present = true) :
    Rewritten present line [line]
  | replaced (digits tail : Text) (hp : present = true) (hd : ∀ c ∈ digits, isUnicodeDigit c = true)
    (ht : ∀ c ∈ tail, isLineBreak c = true) :
    Rewritten present (maxMessageSizePrefix ++ digits ++ tail) [sizeAttribute ++ tail]
  | inserted (line newline : Text) (hp : present = false) (hs : startsWith line sctpPort = true)
    (hc : contains maxMessageSizePrefix line = false) (hb : Closed (codes line)) (hn : newline = ['\r', '\n'] ∨ newline = ['\n']) :
    Rewritten present line [line, sizeAttribute ++ newline]

theorem contains_iff_line {sdp : Text} :
    contains maxMessageSizePrefix sdp = true ↔ ∃ line ∈ splitLines sdp, contains maxMessageSizePrefix line = true := by
  have hstops : (splitLines sdp).Pairwise fun line _ => Stops maxMessageSizePrefix line :=
    (splitLines_closed sdp).imp fun h => stops_of_closed (by decide) h
  have hflatten := contains_flatten (by decide) hstops
  rw [flatten_splitLines] at hflatten
  rw [hflatten, List.any_eq_true]

/-- The first pass goes line by line. -/
theorem setMaxMessageSize_lines {sdp : Text} (h : Emitted sdp) :
    ∃ f : Text → List Text, setMaxMessageSize sdp maxMessageSize = ((splitLines sdp).flatMap f).flatten ∧
      ∀ line ∈ splitLines sdp, Rewritten (contains maxMessageSizePrefix sdp) line (f line) := by
  have flatten : ∀ f : Text → List Text, ((splitLines sdp).flatMap f).flatten = (splitLines sdp).flatMap fun line => (f line).flatten := by
    intro f
    rw [List.flatMap_def, List.flatten_flatten, List.map_map, List.flatMap_def]
    rfl
  by_cases hp : contains maxMessageSizePrefix sdp = true
  · refine ⟨fun line => [substituteSize maxMessageSize 0 line], ?_, fun line hline => ?_⟩
    · have hflatten := substituteSize_flatten maxMessageSize (splitLines_closed sdp)
      rw [flatten_splitLines] at hflatten
      rw [setMaxMessageSize, if_pos hp, hflatten, flatten]
      simp only [List.flatten_singleton, List.flatMap_def]
    · show Rewritten _ line [substituteSize maxMessageSize 0 line]
      cases hc : contains maxMessageSizePrefix line with
      | true =>
        obtain ⟨digits, tail, rfl, hne, hd, ht⟩ := h.digits line hline hc
        rw [substituteSize_attribute maxMessageSize hne hd ht]
        exact .replaced digits tail hp hd ht
      | false =>
        rw [substituteSize_of_not_contains maxMessageSize hc]
        exact .same line hc fun _ => hp
  · refine ⟨fun line => if startsWith line sctpPort then
      [line, sizeAttribute ++ if line.drop (line.length - 2) = ['\r', '\n'] then ['\r', '\n'] else ['\n']] else [line], ?_, fun line hline => ?_⟩
    · rw [setMaxMessageSize, if_neg hp, flatten]
      congr 1
      funext line
      split
      · simp [sizeAttribute]
      · simp
    · have hc : contains maxMessageSizePrefix line = false := by
        rw [← Bool.not_eq_true]
        exact fun hc => hp (contains_iff_line.mpr ⟨line, hline, hc⟩)
      simp only
      split
      · next hs =>
        refine .inserted line _ (Bool.eq_false_iff.mpr hp) hs hc (closed_codes.mpr (h.terminated line hline hs)) ?_
        split
        · exact .inl rfl
        · exact .inr rfl
      · next hs => exact .same line hc fun h => absurd h hs

theorem strip_sizeAttribute {tail : Text} (ht : ∀ c ∈ tail, isLineBreak c = true) : strip (sizeAttribute ++ tail) = sizeAttribute := by
  have hspace : ∀ c ∈ codes tail, Library.isSpace c = true := by
    intro c hc
    obtain ⟨d, hd, rfl⟩ := List.mem_map.mp hc
    exact isSpace_of_isLineBreak (ht d hd)
  have hname : ∀ c ∈ codes sizeAttribute, Library.isSpace c = false := by
    intro c hc
    obtain ⟨d, hd, rfl⟩ := List.mem_map.mp hc
    exact (Bool.not_eq_true' _).mp (List.all_eq_true.mp (show sizeAttribute.all (fun c => !isSpace c) = true by decide) d hd)
  rw [← codes_inj, ← strip_codes, codes_append, strip_append hspace, strip_of_no_space hname]

private theorem newline_breaks {newline : Text} (h : newline = ['\r', '\n'] ∨ newline = ['\n']) : ∀ c ∈ newline, isLineBreak c = true := by
  rcases h with rfl | rfl <;> exact List.all_eq_true.mp (by decide)

/-- A line that starts with the name of one attribute starts with no other's. -/
private theorem startsWith_other {line name other : Text} (h : startsWith line name = true)
    (hn : (name.isPrefixOf other || other.isPrefixOf name) = false) : startsWith line other = false := by
  rw [← Bool.not_eq_true]
  intro ho
  rw [Bool.or_eq_false_iff] at hn
  rcases List.prefix_or_prefix_of_prefix (List.isPrefixOf_iff_prefix.mp h) (List.isPrefixOf_iff_prefix.mp ho) with hp | hp
  · exact absurd (List.isPrefixOf_iff_prefix.mpr hp) (by rw [hn.1]; exact Bool.false_ne_true)
  · exact absurd (List.isPrefixOf_iff_prefix.mpr hp) (by rw [hn.2]; exact Bool.false_ne_true)

/-- What the first pass writes are lines of their own, each the attribute or the line it was. -/
theorem Rewritten.part {present : Bool} {line : Text} {parts : List Text} (h : Rewritten present line parts)
    (hl : IsLine (codes line)) : ∀ part ∈ parts, IsLine (codes part) ∧
      (part = line ∧ contains maxMessageSizePrefix line = false ∨
        ∃ tail, part = sizeAttribute ++ tail ∧ ∀ c ∈ tail, isLineBreak c = true) := by
  have hname : ∀ {name : Text}, name.all (fun c => !isLineBreak c) = true → ∀ c ∈ codes name, Library.isLineBreak c = false := by
    intro name hn c hc
    obtain ⟨d, hd, rfl⟩ := List.mem_map.mp hc
    exact (Bool.not_eq_true' _).mp (List.all_eq_true.mp hn d hd)
  cases h with
  | same _ hc _ =>
    intro part hpart
    obtain rfl := List.mem_singleton.mp hpart
    exact ⟨hl, .inl ⟨rfl, hc⟩⟩
  | replaced digits tail _ hd ht =>
    intro part hpart
    obtain rfl := List.mem_singleton.mp hpart
    refine ⟨?_, .inr ⟨tail, rfl, ht⟩⟩
    have hbody : (maxMessageSizePrefix ++ digits).all (fun c => !isLineBreak c) = true := by
      rw [List.all_append, Bool.and_eq_true]
      refine ⟨by decide, List.all_eq_true.mpr fun c hc => ?_⟩
      rw [Bool.not_eq_true', ← Bool.not_eq_true]
      intro hb
      exact absurd (hd c hc) (by rw [not_digit_of_isLineBreak hb]; exact Bool.false_ne_true)
    have hfront : codes (maxMessageSizePrefix ++ digits) ≠ [] := by
      rw [codes_append]
      exact List.append_ne_nil_of_left_ne_nil (by decide) _
    rw [codes_append, isLine_append (hname hbody) hfront] at hl
    rw [codes_append, isLine_append (hname (by decide)) (by decide)]
    exact hl
  | inserted _ newline _ hs hc hb hn =>
    intro part hpart
    simp only [List.mem_cons, List.not_mem_nil, or_false] at hpart
    obtain rfl | rfl := hpart
    · exact ⟨hl, .inl ⟨rfl, hc⟩⟩
    · refine ⟨?_, .inr ⟨newline, rfl, newline_breaks hn⟩⟩
      rw [codes_append, isLine_append (hname (by decide)) (by decide)]
      rcases hn with rfl | rfl <;> exact .inr rfl

private theorem startsWith_name (name rest : Text) : startsWith (name ++ rest) name = true :=
  List.isPrefixOf_iff_prefix.mpr (List.prefix_append name rest)

private theorem startsWith_sizeAttribute (tail : Text) : startsWith (sizeAttribute ++ tail) maxMessageSizePrefix = true := by
  rw [sizeAttribute, List.append_assoc]
  exact startsWith_name _ _

/-- The attribute is no candidate line and does not end the candidates. -/
private theorem attribute_stays {line : Text} (h : strip line = sizeAttribute) : isCandidate line = false ∧ strip line ≠ endOfCandidates := by
  rw [isCandidate, h]
  decide

private theorem port_stays {line : Text} (h : startsWith line sctpPort = true) : isCandidate line = false ∧ strip line ≠ endOfCandidates := by
  have hstrip := startsWith_strip (by decide) (by decide) h
  refine ⟨startsWith_other hstrip (by decide), fun hend => ?_⟩
  rw [hend] at hstrip
  exact absurd hstrip (by decide)

/-- The description after the first pass, as lines. -/
structure Parts (sdp : Text) (parts : List Text) : Prop where
  lines : ∀ part ∈ parts, IsLine (codes part)
  apart : parts.IsChain fun a b => Apart (codes a) (codes b)
  either : ∀ part ∈ parts, part ∈ splitLines sdp ∧ contains maxMessageSizePrefix part = false ∨
    ∃ tail, part = sizeAttribute ++ tail ∧ ∀ c ∈ tail, isLineBreak c = true
  others : ∀ p : Text → Bool, (∀ line, isAttribute line = true → p line = false) → parts.filter p = (splitLines sdp).filter p
  present : (∃ line ∈ splitLines sdp, startsWith line sctpPort = true ∨ contains maxMessageSizePrefix line = true) →
    ∃ part ∈ parts, strip part = sizeAttribute
  unmerged : Unmerged sdp → (parts.filter fun line => !isHost line).IsChain fun a b =>
    isCandidate a = true ∨ strip a = endOfCandidates → ¬ (a.getLast? = some '\r' ∧ b.head? = some '\n')

/-- A line and its parts have the same first character, and end alike. -/
private theorem Rewritten.ends {present : Bool} {line : Text} {parts : List Text} (h : Rewritten present line parts) :
    (∀ part ∈ parts.head?, part.head? = line.head?) ∧
      ∀ part ∈ parts.getLast?, part = line ∨ strip part = sizeAttribute ∧
        (Closed (codes line) → Closed (codes part) ∧ (part.getLast? = some '\r' → line.getLast? = some '\r')) := by
  cases h with
  | same _ _ _ =>
    refine ⟨?_, ?_⟩
    · rintro part hpart
      rw [← Option.some.inj hpart]
    · rintro part hpart
      exact .inl (Option.some.inj hpart).symm
  | replaced digits tail _ hd ht =>
    refine ⟨?_, ?_⟩
    · rintro part hpart
      rw [← Option.some.inj hpart]
      rfl
    · rintro part hpart
      obtain rfl : sizeAttribute ++ tail = part := Option.some.inj hpart
      refine .inr ⟨strip_sizeAttribute ht, fun hclosed => ?_⟩
      have htail : tail ≠ [] := by
        rintro rfl
        obtain ⟨c, hc, hb⟩ := closed_codes.mp hclosed
        have hmem := List.mem_of_getLast? hc
        rw [List.append_nil, List.mem_append] at hmem
        rcases hmem with hmem | hmem
        · exact not_mem_of_isLineBreak (by decide) hb hmem
        · exact absurd (hd c hmem) (by rw [not_digit_of_isLineBreak hb]; exact Bool.false_ne_true)
      rw [closed_codes] at hclosed ⊢
      rw [List.getLast?_append_of_ne_nil _ htail] at hclosed ⊢
      rw [List.getLast?_append_of_ne_nil _ htail]
      exact ⟨hclosed, id⟩
  | inserted _ newline _ _ _ _ hn =>
    refine ⟨?_, ?_⟩
    · rintro part hpart
      rw [← Option.some.inj hpart]
    · rintro part hpart
      obtain rfl : sizeAttribute ++ newline = part := Option.some.inj hpart
      refine .inr ⟨strip_sizeAttribute (newline_breaks hn), fun _ => ?_⟩
      have hlast : (sizeAttribute ++ newline).getLast? = some '\n' := by
        rcases hn with rfl | rfl <;> exact List.getLast?_append_of_ne_nil _ (by simp)
      rw [closed_codes, hlast]
      exact ⟨⟨_, rfl, by decide⟩, fun h => absurd h (by decide)⟩

private theorem Rewritten.ne_nil {present : Bool} {line : Text} {parts : List Text} (h : Rewritten present line parts) : parts ≠ [] := by
  cases h <;> exact List.cons_ne_nil _ _

private theorem Rewritten.isChain {present : Bool} {line : Text} {parts : List Text} {R : Text → Text → Prop}
    (h : Rewritten present line parts)
    (hport : ∀ newline, startsWith line sctpPort = true → Closed (codes line) → R line (sizeAttribute ++ newline)) : parts.IsChain R := by
  cases h with
  | same _ _ _ => exact List.isChain_singleton _
  | replaced _ _ _ _ _ => exact List.isChain_singleton _
  | inserted _ newline _ hs _ hb _ => exact List.isChain_cons_cons.mpr ⟨hport newline hs hb, List.isChain_singleton _⟩

/-- Lines rewritten one by one are a chain where the lines were, if what follows a line may follow its last part. -/
private theorem isChain_rewritten {present : Bool} {ls : List Text} {f : Text → List Text} {R S : Text → Text → Prop}
    (hf : ∀ line ∈ ls, Rewritten present line (f line)) (hinner : ∀ line ∈ ls, (f line).IsChain R)
    (hadjacent : ∀ a ∈ ls, ∀ b ∈ ls, S a b → ∀ x ∈ (f a).getLast?, ∀ y ∈ (f b).head?, R x y) (h : ls.IsChain S) :
    (ls.flatMap f).IsChain R := by
  rw [List.flatMap_def, List.isChain_flatten]
  · refine ⟨List.forall_mem_map.mpr hinner, ?_⟩
    rw [List.isChain_map]
    exact h.imp_of_mem_imp fun a b ha hb => hadjacent a ha b hb
  · intro hnil
    obtain ⟨line, hline, heq⟩ := List.mem_map.mp hnil
    exact (hf line hline).ne_nil heq

private theorem apart_rewritten {present : Bool} {ls : List Text} {f : Text → List Text}
    (hf : ∀ line ∈ ls, Rewritten present line (f line)) (h : ls.IsChain fun a b => Apart (codes a) (codes b)) :
    (ls.flatMap f).IsChain fun a b => Apart (codes a) (codes b) := by
  refine isChain_rewritten hf (fun line hline => ?_) (fun a ha b hb hapart x hx y hy => ?_) h
  · refine (hf line hline).isChain fun newline _ hb => ⟨hb, fun hm => ?_⟩
    have hfirst : some 'a' = some '\n' := (merges_codes.mp hm).2
    exact absurd hfirst (by decide)
  · obtain ⟨hclosed, hm⟩ := hapart
    rw [merges_codes] at hm
    have hhead := (hf b hb).ends.1 y hy
    rw [Apart, merges_codes, hhead]
    rcases (hf a ha).ends.2 x hx with rfl | ⟨_, hends⟩
    · exact ⟨hclosed, hm⟩
    · exact ⟨(hends hclosed).1, fun h => hm ⟨(hends hclosed).2 h.1, h.2⟩⟩

/-- Lines that go, as `Unmerged` says of them. -/
private def Goes (a b : Text) : Prop :=
  isCandidate a = true ∨ strip a = endOfCandidates → ¬ (a.getLast? = some '\r' ∧ b.head? = some '\n')

private theorem goes_of_stays {a : Text} (h : isCandidate a = false ∧ strip a ≠ endOfCandidates) (b : Text) : Goes a b := by
  rintro (hgone | hgone)
  · rw [h.1] at hgone
    cases hgone
  · exact absurd hgone h.2

private theorem not_isHost {line : Text} (h : startsWith line candidatePrefix = false) : isHost line = false := by
  rw [isHost, h]
  rfl

private theorem not_isHost_sizeAttribute (tail : Text) : isHost (sizeAttribute ++ tail) = false :=
  not_isHost (startsWith_other (startsWith_sizeAttribute tail) (by decide))

private theorem isHost_rewritten {present : Bool} {line : Text} {parts : List Text} (h : Rewritten present line parts) :
    parts.filter (fun part => !isHost part) = if isHost line then [] else parts := by
  cases h with
  | same _ _ _ => cases hh : isHost line <;> simp [hh]
  | replaced digits tail _ _ _ =>
    have hline : isHost (maxMessageSizePrefix ++ digits ++ tail) = false := by
      rw [List.append_assoc]
      exact not_isHost (startsWith_other (startsWith_name _ _) (by decide))
    rw [hline]
    simp [not_isHost_sizeAttribute]
  | inserted _ newline _ hs _ _ _ =>
    have hline : isHost line = false := not_isHost (startsWith_other hs (by decide))
    simp [not_isHost_sizeAttribute, hline]

private theorem unmerged_rewritten {present : Bool} {ls : List Text} {f : Text → List Text}
    (hf : ∀ line ∈ ls, Rewritten present line (f line)) (h : (ls.filter fun line => !isHost line).IsChain Goes) :
    ((ls.flatMap f).filter fun line => !isHost line).IsChain Goes := by
  have hflat : (ls.flatMap f).filter (fun line => !isHost line) = (ls.filter fun line => !isHost line).flatMap f := by
    rw [List.filter_flatMap]
    clear h
    induction ls with
    | nil => rfl
    | cons line ls ih =>
      rw [List.flatMap_cons, ih fun l h => hf l (List.mem_cons_of_mem _ h), isHost_rewritten (hf line List.mem_cons_self)]
      cases hh : isHost line <;> simp [hh]
  have hf' : ∀ line ∈ ls.filter (fun line => !isHost line), Rewritten present line (f line) :=
    fun line hline => hf line (List.mem_of_mem_filter hline)
  rw [hflat]
  refine isChain_rewritten hf' (fun line hline => ?_) (fun a ha b hb hgoes x hx y hy => ?_) h
  · exact (hf' line hline).isChain fun newline hs _ => goes_of_stays (port_stays hs) _
  · rcases (hf' a ha).ends.2 x hx with rfl | ⟨hstrip, _⟩
    · intro hgone
      rw [(hf' b hb).ends.1 y hy]
      exact hgoes hgone
    · exact goes_of_stays (attribute_stays hstrip) y

private theorem others_rewritten {present : Bool} {ls : List Text} {f : Text → List Text}
    (hf : ∀ line ∈ ls, Rewritten present line (f line)) (p : Text → Bool) (hp : ∀ line, isAttribute line = true → p line = false) :
    (ls.flatMap f).filter p = ls.filter p := by
  have hattribute : ∀ line, startsWith line maxMessageSizePrefix = true → p line = false :=
    fun line h => hp line (startsWith_strip (by decide) (by decide) h)
  have hparts : ∀ line ∈ ls, (f line).filter p = [line].filter p := by
    intro line hline
    have hrewritten := hf line hline
    generalize f line = parts at hrewritten
    cases hrewritten with
    | same _ _ _ => rfl
    | replaced digits tail _ _ _ =>
      have hnew := hattribute _ (startsWith_sizeAttribute tail)
      have hold := hattribute (maxMessageSizePrefix ++ digits ++ tail) (by rw [List.append_assoc]; exact startsWith_name _ _)
      simp [hnew, hold, -List.append_assoc]
    | inserted _ newline _ _ _ _ _ => simp [List.filter_cons, hattribute _ (startsWith_sizeAttribute newline)]
  rw [List.filter_flatMap, List.flatMap_def, List.map_congr_left hparts, ← List.flatMap_def, ← List.filter_flatMap,
    List.flatMap_singleton']

/-- The parts that the first pass leaves. -/
theorem parts_of_emitted {sdp : Text} (h : Emitted sdp) :
    ∃ parts, setMaxMessageSize sdp maxMessageSize = parts.flatten ∧ Parts sdp parts := by
  obtain ⟨f, heq, hf⟩ := setMaxMessageSize_lines h
  have hpart : ∀ part ∈ (splitLines sdp).flatMap f, ∃ line ∈ splitLines sdp, IsLine (codes part) ∧
      (part = line ∧ contains maxMessageSizePrefix line = false ∨ ∃ tail, part = sizeAttribute ++ tail ∧ ∀ c ∈ tail, isLineBreak c = true) := by
    intro part hpart
    obtain ⟨line, hline, hmem⟩ := List.mem_flatMap.mp hpart
    exact ⟨line, hline, (hf line hline).part (isLine_of_mem_splitLines hline) part hmem⟩
  refine ⟨_, heq, ?_, apart_rewritten hf (splitLines_apart sdp), ?_, others_rewritten hf, ?_, unmerged_rewritten hf⟩
  · intro part hmem
    obtain ⟨_, _, hl, _⟩ := hpart part hmem
    exact hl
  · intro part hmem
    obtain ⟨line, hline, _, ⟨rfl, hc⟩ | hattribute⟩ := hpart part hmem
    · exact .inl ⟨hline, hc⟩
    · exact .inr hattribute
  · rintro ⟨line, hline, hs⟩
    have written : ∀ line ∈ splitLines sdp, ∀ part ∈ f line, strip part = sizeAttribute →
        ∃ part ∈ (splitLines sdp).flatMap f, strip part = sizeAttribute :=
      fun line hline part hmem hstrip => ⟨part, List.mem_flatMap.mpr ⟨line, hline, hmem⟩, hstrip⟩
    have replaced : ∀ line ∈ splitLines sdp, contains maxMessageSizePrefix line = true →
        ∃ part ∈ (splitLines sdp).flatMap f, strip part = sizeAttribute := by
      intro line hline hc
      refine (fun ⟨part, hmem, hstrip⟩ => written line hline part hmem hstrip :
        (∃ part ∈ f line, strip part = sizeAttribute) → _) ?_
      have hrewritten := hf line hline
      generalize f line = parts at hrewritten
      cases hrewritten with
      | same _ hno _ =>
        rw [hc] at hno
        cases hno
      | replaced digits tail _ _ ht => exact ⟨_, List.mem_singleton_self _, strip_sizeAttribute ht⟩
      | inserted _ _ _ _ hno _ _ =>
        rw [hc] at hno
        cases hno
    rcases hs with hs | hc
    · have hrewritten := hf line hline
      generalize hparts : f line = parts at hrewritten
      cases hrewritten with
      | same _ _ hp =>
        obtain ⟨other, hother, hc⟩ := contains_iff_line.mp (hp hs)
        exact replaced other hother hc
      | replaced digits tail _ _ ht => exact written _ hline (sizeAttribute ++ tail) (by rw [hparts]; simp) (strip_sizeAttribute ht)
      | inserted _ newline _ _ _ _ hn =>
        exact written _ hline (sizeAttribute ++ newline) (by rw [hparts]; simp) (strip_sizeAttribute (newline_breaks hn))
    · exact replaced line hline hc

/-! ### The other two passes -/

/-- A stripped line that the last pass keeps. -/
private def stays (line : Text) : Bool := !startsWith line candidatePrefix && decide (line ≠ endOfCandidates)

private theorem stays_strip {line : Text} : stays (strip line) = true ↔ isCandidate line = false ∧ strip line ≠ endOfCandidates := by
  simp [stays, isCandidate]

/-- Blank lines are no candidates. -/
private theorem candidates_of_lines (ls : List Text) :
    ((ls.map strip).filter fun line => !line.isEmpty).filter (fun line => startsWith line candidatePrefix) =
      (ls.filter isCandidate).map strip := by
  rw [List.filter_filter, List.filter_map]
  refine congrArg (List.map strip) (List.filter_congr fun line _ => ?_)
  rw [Function.comp_apply, isCandidate]
  cases strip line with
  | nil => rfl
  | cons c rest => exact Bool.and_true _

private theorem stripCandidates_eq (sdp : Text) :
    stripCandidates sdp = (((splitLines sdp).filter fun line => stays (strip line)).flatten,
      ((content sdp).filter fun line => startsWith line candidatePrefix).map (List.drop 2)) := by
  have hcontent : (content sdp).filter (fun line => startsWith line candidatePrefix) =
      ((splitLines sdp).filter isCandidate).map strip := candidates_of_lines (splitLines sdp)
  rw [hcontent, List.map_map, stripCandidates]
  refine Prod.ext (congrArg List.flatten (List.filter_congr fun line _ => ?_)) rfl
  rw [Bool.eq_iff_iff]
  simp [stays]

private theorem content_stripped (sdp : Text) : content (stripCandidates sdp).1 = (content sdp).filter stays := by
  have hline : ∀ line ∈ (splitLines sdp).filter (fun line => stays (strip line)), IsLine (codes line) :=
    fun line hline => isLine_of_mem_splitLines (List.mem_of_mem_filter hline)
  rw [stripCandidates_eq, content_flatten hline ((splitLines_closed sdp).filter _), content, List.filter_filter]
  have hmap : ((splitLines sdp).filter fun line => stays (strip line)).map strip = ((splitLines sdp).map strip).filter stays := by
    rw [List.filter_map]
    rfl
  rw [hmap, List.filter_filter]
  apply List.filter_congr
  intro line _
  rw [Bool.and_comm]

section Sent
variable {sdp : Text} {parts : List Text} (hp : Parts sdp parts) (relayOnly : Bool)

/-- The parts that are left of a description before its candidates are taken out. -/
private def remaining (parts : List Text) (relayOnly : Bool) : List Text := parts.filter fun part => !(relayOnly && isHost part)

include hp in
private theorem remaining_lines : (∀ part ∈ remaining parts relayOnly, IsLine (codes part)) ∧
    (remaining parts relayOnly).Pairwise fun part _ => Closed (codes part) := by
  have hclosed := splitLines_closed parts.flatten
  rw [splitLines_flatten hp.lines hp.apart] at hclosed
  exact ⟨fun part hpart => hp.lines part (List.mem_of_mem_filter hpart), hclosed.filter _⟩

include hp in
/-- The second pass, where it is made, drops the host candidates. -/
private theorem second_pass : (if relayOnly then keepOnlyRelayCandidates parts.flatten else parts.flatten) =
    (remaining parts relayOnly).flatten := by
  cases relayOnly with
  | false => simp [remaining]
  | true =>
    rw [if_pos rfl, keepOnlyRelayCandidates, splitLines_flatten hp.lines hp.apart, remaining]
    congr 2
    funext part
    simp [isHost]

/-- The description that is sent, and its candidates. -/
private def sentOf (parts : List Text) (relayOnly : Bool) : Text × List Text := stripCandidates (remaining parts relayOnly).flatten

include hp in
private theorem content_sent : content (sentOf parts relayOnly).1 =
    (((remaining parts relayOnly).map strip).filter fun line => !line.isEmpty).filter stays := by
  obtain ⟨hl, hc⟩ := remaining_lines hp relayOnly
  rw [sentOf, content_stripped, content_flatten hl hc]

/-- A line of the description sent is blank, or stripped it is a stripped part that stays. -/
private theorem mem_content {sent line : Text} (h : line ∈ splitLines sent) : strip line = [] ∨ strip line ∈ content sent := by
  cases hs : strip line with
  | nil => exact .inl rfl
  | cons c rest =>
    refine .inr (List.mem_filter.mpr ⟨List.mem_map.mpr ⟨line, h, hs⟩, rfl⟩)

include hp in
private theorem line_of_sent {line : Text} (h : line ∈ splitLines (sentOf parts relayOnly).1) :
    strip line = [] ∨ stays (strip line) = true ∧ ∃ part ∈ parts, strip part = strip line := by
  refine (mem_content h).imp_right fun hmem => ?_
  rw [content_sent hp relayOnly, List.mem_filter, List.mem_filter, List.mem_map] at hmem
  obtain ⟨⟨⟨part, hpart, hstrip⟩, _⟩, hstays⟩ := hmem
  exact ⟨hstays, part, List.mem_of_mem_filter hpart, hstrip⟩

include hp in
private theorem sent_stays : ∀ line ∈ splitLines (sentOf parts relayOnly).1, stays (strip line) = true := by
  intro line hline
  rcases line_of_sent hp relayOnly hline with hnil | ⟨hstays, _⟩
  · rw [hnil]
    decide
  · exact hstays

include hp in
private theorem part_attribute {part : Text} (hpart : part ∈ parts) (h : Emitted sdp) (ha : isAttribute part = true) :
    strip part = sizeAttribute := by
  rcases hp.either part hpart with ⟨hline, hno⟩ | ⟨tail, rfl, ht⟩
  · have hcontains := (List.isPrefixOf_iff_prefix.mp (h.startsWith hline ha)).isInfix
    rw [← contains_iff_infix, hno] at hcontains
    cases hcontains
  · exact strip_sizeAttribute ht

include hp in
private theorem sent_attribute (h : Emitted sdp) : ∀ line ∈ splitLines (sentOf parts relayOnly).1,
    isAttribute line = true → strip line = sizeAttribute := by
  intro line hline ha
  rcases line_of_sent hp relayOnly hline with hnil | ⟨_, part, hpart, hstrip⟩
  · rw [isAttribute, hnil] at ha
    exact absurd ha (by decide)
  · rw [← hstrip]
    refine part_attribute hp hpart h ?_
    rwa [isAttribute, hstrip]

include hp in
private theorem sent_present (h : ∃ line ∈ splitLines sdp, startsWith line sctpPort = true ∨ contains maxMessageSizePrefix line = true) :
    ∃ line ∈ splitLines (sentOf parts relayOnly).1, strip line = sizeAttribute := by
  obtain ⟨part, hpart, hstrip⟩ := hp.present h
  have hhost : isHost part = false := by
    rw [← Bool.not_eq_true, isHost, decide_eq_true_eq]
    rintro ⟨hfront, _⟩
    have hstrip' := startsWith_strip (by decide) (by decide) hfront
    rw [hstrip] at hstrip'
    exact absurd hstrip' (by decide)
  have hmem : sizeAttribute ∈ content (sentOf parts relayOnly).1 := by
    rw [content_sent hp relayOnly, List.mem_filter, List.mem_filter]
    refine ⟨⟨List.mem_map.mpr ⟨part, List.mem_filter.mpr ⟨hpart, by simp [hhost]⟩, hstrip⟩, by decide⟩, by decide⟩
  obtain ⟨line, hline, hstrip⟩ := List.mem_map.mp (List.mem_of_mem_filter hmem)
  exact ⟨line, hline, hstrip⟩

include hp in
private theorem sent_keeps (h : Emitted sdp) (hm : relayOnly = true → Unmerged sdp) : KeepsOthers sdp (sentOf parts relayOnly).1 := by
  obtain ⟨hl, hc⟩ := remaining_lines hp relayOnly
  refine ⟨(remaining parts relayOnly).filter fun part => stays (strip part), ?_, ?_, ?_⟩
  · rw [sentOf, stripCandidates_eq]
    refine flatten_filter_splitLines hl hc (by decide) ?_
    cases relayOnly with
    | true =>
      refine (hp.unmerged (hm rfl)).imp fun a b hgoes hgone => hgoes ?_
      by_contra hstays
      rw [not_or, Bool.not_eq_true] at hstays
      rw [stays_strip.mpr hstays] at hgone
      cases hgone
    | false =>
      rw [show remaining parts false = parts by simp [remaining]]
      exact hp.apart.imp fun a b hapart _ hmerges => hapart.2 (merges_codes.mpr hmerges)
  · rw [remaining, List.filter_filter, List.filter_filter, ← hp.others isOther fun line ha => by simp [isOther, ha]]
    refine List.filter_congr fun line _ => ?_
    rw [Bool.eq_iff_iff, isOther, decide_eq_true_eq]
    simp only [Bool.and_eq_true, Bool.not_eq_true', stays_strip, Bool.not_eq_true]
    have hhost : isCandidate line = false → isHost line = false := by
      intro hno
      rw [← Bool.not_eq_true, isHost, decide_eq_true_eq]
      rintro ⟨hfront, _⟩
      exact absurd (startsWith_strip (by decide) (by decide) hfront) (by rw [← isCandidate, hno]; exact Bool.false_ne_true)
    constructor
    · rintro ⟨⟨ha, hc, he⟩, _⟩
      exact ⟨hc, he, ha⟩
    · rintro ⟨hc, he, ha⟩
      exact ⟨⟨ha, hc, he⟩, by rw [hhost hc, Bool.and_false]⟩
  · intro part hpart ha
    exact part_attribute hp (List.mem_of_mem_filter (List.mem_of_mem_filter hpart)) h ha

include hp in
private theorem sent_candidates (h : Emitted sdp) : (sentOf parts relayOnly).2 =
    ((splitLines sdp).filter fun line => isCandidate line && (!relayOnly || contains typRelay line)).map fun line =>
      (strip line).drop 2 := by
  obtain ⟨hl, hc⟩ := remaining_lines hp relayOnly
  have hcontent : (content (remaining parts relayOnly).flatten).filter (fun line => startsWith line candidatePrefix) =
      ((remaining parts relayOnly).filter isCandidate).map strip := by
    rw [content_flatten hl hc, candidates_of_lines]
  have hothers : parts.filter (fun line => isCandidate line && !(relayOnly && isHost line)) =
      (splitLines sdp).filter fun line => isCandidate line && !(relayOnly && isHost line) := by
    refine hp.others _ fun line ha => ?_
    rw [Bool.and_eq_false_iff]
    exact .inl (startsWith_other ha (by decide))
  rw [sentOf, stripCandidates_eq, hcontent, remaining, List.filter_filter, hothers, List.map_map]
  refine congrArg (List.map _) (List.filter_congr fun line hline => ?_)
  cases hcandidate : isCandidate line with
  | false => rfl
  | true =>
    have hfront := h.startsWith hline hcandidate
    cases relayOnly <;> simp [isHost, hfront]

include hp in
private theorem settled {line : Text} (hline : line ∈ splitLines (remaining parts relayOnly).flatten) :
    substituteSize maxMessageSize 0 line = line := by
  have hpart : ∀ part ∈ remaining parts relayOnly, substituteSize maxMessageSize 0 part = part := by
    intro part hmem
    rcases hp.either part (List.mem_of_mem_filter hmem) with ⟨_, hno⟩ | ⟨tail, rfl, ht⟩
    · exact substituteSize_of_not_contains maxMessageSize hno
    · exact substituteSize_attribute maxMessageSize (by decide) (List.all_eq_true.mp (by decide)) ht
  obtain ⟨hl, hc⟩ := remaining_lines hp relayOnly
  obtain hmem | ⟨part, hmem, hclosed, rfl⟩ := mem_splitLines_flatten hl hc hline
  · exact hpart line hmem
  · have hne : 0 < part.length := by
      obtain ⟨c, hc, _⟩ := closed_codes.mp hclosed
      exact List.length_pos_of_mem (List.mem_of_getLast? hc)
    rw [substituteSize_append maxMessageSize hclosed hne, hpart part hmem]
    rfl

include hp in
/-- The pipeline changes nothing in what it has put out. -/
private theorem sent_again (h : Emitted sdp) : setMaxMessageSize (sentOf parts relayOnly).1 maxMessageSize = (sentOf parts relayOnly).1 ∧
    keepOnlyRelayCandidates (sentOf parts relayOnly).1 = (sentOf parts relayOnly).1 ∧
    stripCandidates (sentOf parts relayOnly).1 = ((sentOf parts relayOnly).1, []) := by
  have hstays := sent_stays hp relayOnly
  refine ⟨?_, ?_, ?_⟩
  · by_cases hpresent : contains maxMessageSizePrefix (sentOf parts relayOnly).1 = true
    · have hkept : ((splitLines (remaining parts relayOnly).flatten).filter fun line => stays (strip line)).map
          (substituteSize maxMessageSize 0) = (splitLines (remaining parts relayOnly).flatten).filter fun line => stays (strip line) :=
        (List.map_congr_left fun line hline => settled hp relayOnly (List.mem_of_mem_filter hline)).trans (List.map_id _)
      rw [setMaxMessageSize, if_pos hpresent, sentOf, stripCandidates_eq, substituteSize_flatten _ ((splitLines_closed _).filter _), hkept]
    · have hport : ∀ line ∈ splitLines (sentOf parts relayOnly).1, startsWith line sctpPort = false := by
        intro line hline
        rw [← Bool.not_eq_true]
        intro hs
        have hstrip := startsWith_strip (by decide) (by decide) hs
        rcases line_of_sent hp relayOnly hline with hnil | ⟨_, part, hpart, heq⟩
        · rw [hnil] at hstrip
          exact absurd hstrip (by decide)
        · rw [← heq] at hstrip
          have hmem : part ∈ splitLines sdp := by
            rcases hp.either part hpart with ⟨hmem, _⟩ | ⟨tail, rfl, ht⟩
            · exact hmem
            · rw [strip_sizeAttribute ht] at hstrip
              exact absurd hstrip (by decide)
          obtain ⟨other, hother, hsize⟩ := sent_present hp relayOnly ⟨part, hmem, .inl (h.startsWith hmem hstrip)⟩
          refine hpresent (contains_iff_line.mpr ⟨other, hother, contains_iff_infix.mpr (List.IsInfix.trans ?_ (strip_isInfix other))⟩)
          rw [hsize]
          exact (List.prefix_append _ _).isInfix
      have hsame : (splitLines (sentOf parts relayOnly).1).flatMap (fun line => if startsWith line sctpPort then
          let newline := if line.drop (line.length - 2) = ['\r', '\n'] then ['\r', '\n'] else ['\n']
          line ++ (maxMessageSizePrefix ++ decimal maxMessageSize ++ newline) else line) =
          (splitLines (sentOf parts relayOnly).1).flatten := by
        rw [List.flatMap_def, List.map_congr_left fun line hline => by rw [hport line hline, if_neg Bool.false_ne_true], List.map_id']
      rw [setMaxMessageSize, if_neg hpresent, hsame, flatten_splitLines]
  · have hfront : ∀ line ∈ splitLines (sentOf parts relayOnly).1,
        decide (¬ (startsWith line candidatePrefix = true ∧ ¬ contains typRelay line = true)) = true := by
      intro line hline
      rw [decide_eq_true_eq]
      rintro ⟨hc, _⟩
      have hno := (stays_strip.mp (hstays line hline)).1
      rw [isCandidate, startsWith_strip (by decide) (by decide) hc] at hno
      cases hno
    rw [keepOnlyRelayCandidates, List.filter_eq_self.mpr hfront, flatten_splitLines]
  · have hnone : (content (sentOf parts relayOnly).1).filter (fun line => startsWith line candidatePrefix) = [] := by
      rw [content_sent hp relayOnly, List.filter_eq_nil_iff]
      intro line hline
      have hno := (List.mem_filter.mp hline).2
      rw [stays, Bool.and_eq_true, Bool.not_eq_true'] at hno
      rw [hno.1]
      exact Bool.false_ne_true
    rw [stripCandidates_eq, List.filter_eq_self.mpr hstays, flatten_splitLines, hnone]
    rfl

end Sent

/-- What `start` and `_handle_request` send of a description that aiortc emitted: no candidate
line, the attribute with its value wherever it or a port line was, every other line as it was,
and the candidates one by one in their order; and the same passes over what was sent find
nothing more to do. The second pass may put a line that goes before an empty line of another
kind of break, which then goes with it; `Unmerged` says that it does not. -/
theorem sent_description (s : Session) (sdp : Text) (hl : s.pc.localDescription = some sdp) (h : Emitted sdp) :
    let sent := stripCandidates s.pc.localSdp
    ((s.afterStart s.pc.localSdp).effects = .sendSignal (SignalingMessage.connectRequest s.connectionId sent.1).serialize ::
        s.sendCandidates sent.2 ++ [.armed (.member .negotiationTimeoutWaitingForResponse)] ∧
      (s.afterRequest s.pc.localSdp).effects = .sendSignal (SignalingMessage.connectResponse s.connectionId sent.1).serialize ::
        s.sendCandidates sent.2 ++ [.armed (.member .negotiationTimeoutWaitingForAccept)]) ∧
      (∀ line ∈ splitLines sent.1, isCandidate line = false ∧ strip line ≠ endOfCandidates) ∧
      (∀ line ∈ splitLines sent.1, isAttribute line = true → strip line = sizeAttribute) ∧
      ((∃ line ∈ splitLines sdp, startsWith line sctpPort = true ∨ contains maxMessageSizePrefix line = true) →
        ∃ line ∈ splitLines sent.1, strip line = sizeAttribute) ∧
      ((s.pc.relayOnly = true → Unmerged sdp) → KeepsOthers sdp sent.1) ∧
      (sent.2 = ((splitLines sdp).filter fun line => isCandidate line && (!s.pc.relayOnly || contains typRelay line)).map fun line =>
        (strip line).drop 2) ∧
      ∀ pc : PeerConnection, pc.localDescription = some sent.1 → stripCandidates pc.localSdp = (sent.1, []) := by
  obtain ⟨parts, hfirst, hp⟩ := parts_of_emitted h
  have hsent : stripCandidates s.pc.localSdp = sentOf parts s.pc.relayOnly := by
    rw [PeerConnection.localSdp, hl, Option.getD_some, hfirst, sentOf, ← second_pass hp s.pc.relayOnly]
  obtain ⟨hfirst', hsecond, hthird⟩ := sent_again hp s.pc.relayOnly h
  refine ⟨⟨rfl, rfl⟩, ?_⟩
  rw [hsent]
  refine ⟨fun line hline => stays_strip.mp (sent_stays hp _ line hline), sent_attribute hp _ h, sent_present hp _, sent_keeps hp _ h,
    sent_candidates hp _ h, fun pc hpc => ?_⟩
  rw [PeerConnection.localSdp, hpc, Option.getD_some, hfirst', hsecond, ite_self, hthird]

private theorem terminated_of {sdp : Text} (h : (splitLines sdp).all (fun line => line.getLast?.any isLineBreak) = true) :
    ∀ line ∈ splitLines sdp, startsWith line sctpPort = true → ∃ c ∈ line.getLast?, isLineBreak c = true := by
  intro line hline _
  obtain ⟨c, hc, hbreak⟩ := (Option.any_eq_true _ _).mp (List.all_eq_true.mp h line hline)
  exact ⟨c, hc, hbreak⟩

/-- A relay-only session whose description has a candidate of each kind and no attribute. -/
theorem sent_description_relay :
    let sdp := "m=x\r\na=candidate:1 typ host\r\na=candidate:2 typ relay\r\na=sctp-port:5000\r\n".toList
    let s : Session := { Session.new 1 .unset .unset true true with pc := { PeerConnection.new true true with localDescription := some sdp } }
    stripCandidates s.pc.localSdp = ("m=x\r\na=sctp-port:5000\r\na=max-message-size:262144\r\n".toList, ["candidate:2 typ relay".toList]) ∧
      KeepsOthers sdp (stripCandidates s.pc.localSdp).1 := by
  intro sdp s
  have hnone : ∀ line ∈ splitLines sdp, contains maxMessageSizePrefix line = false := by decide
  have h : Emitted sdp := by
    refine ⟨terminated_of (by decide), fun line hline hc => ?_, by decide⟩
    rw [hnone line hline] at hc
    cases hc
  refine ⟨by decide, ?_⟩
  obtain ⟨_, _, _, _, hkeeps, _⟩ := sent_description s sdp rfl h
  refine hkeeps fun _ => ?_
  rw [Unmerged]
  decide

/-- Between a relay candidate that ends in a lone carriage return and an empty line stands a
host candidate: the empty line is lost. -/
theorem sent_description_merged :
    ∃ (s : Session) (sdp : Text), s.pc.localDescription = some sdp ∧ Emitted sdp ∧ ¬ KeepsOthers sdp (stripCandidates s.pc.localSdp).1 := by
  let sdp := "a=candidate:1 typ relay\ra=candidate:2 typ host\n\n".toList
  refine ⟨{ Session.new 1 .unset .unset true true with pc := { PeerConnection.new true true with localDescription := some sdp } }, sdp, rfl, ?_, ?_⟩
  · have hnone : ∀ line ∈ splitLines sdp, contains maxMessageSizePrefix line = false := by decide
    refine ⟨terminated_of (by decide), fun line hline hc => ?_, by decide⟩
    rw [hnone line hline] at hc
    cases hc
  · rintro ⟨kept, hsent, hothers, _⟩
    have hempty : ([] : Text) = kept.flatten := hsent ▸ (by decide)
    have hline : ['\n'] ∈ kept := by
      apply List.mem_of_mem_filter (p := fun line => !isAttribute line)
      rw [hothers]
      decide
    have hnil := List.flatten_eq_nil_iff.mp hempty.symm _ hline
    cases hnil

end NetherNet.Sdp
