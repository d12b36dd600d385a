import NetherNet.Identity.Binding
import NetherNet.Identity.Signing

/-! Inserting an assertion into a session description, finding it there, and taking it out
of any text. -/
namespace NetherNet.Identity
open Library
variable {F : Type} [Runtime F]

/-- The identity lines of a text, each with its break. -/
def identityLines (sdp : Str) : List Str := (lines sdp).filter fun line => (identity? (strip line)).isSome

theorem identityLines_eq_nil {sdp : Str} : identityLines sdp = [] ↔ identities sdp = [] := by
  rw [identityLines, identities, List.filter_eq_nil_iff, List.filterMap_eq_nil_iff]
  simp

/-- The line stands right before the first `m=` line, or last where there is none. -/
def InPlace (line sdp inserted : Str) : Prop :=
  ∃ before after, lines sdp = before ++ after ∧ lines inserted = before ++ line :: after ∧
    (∀ other ∈ before, (str "m=").isPrefixOf other = false) ∧ ∀ next ∈ after.head?, (str "m=").isPrefixOf next = true

/-- A text that is extracted from is stripped, whether it had an identity line or not. -/
theorem extractIdentity_stripped {sdp first : Str} {envelope : Option IdentityEnvelope}
    (h : extractIdentity F sdp = .ok (first, envelope)) : first = stripIdentity sdp := by
  unfold extractIdentity at h
  split at h
  · next hnone =>
    obtain rfl : sdp = first := (Prod.mk.inj (Except.ok.inj h)).1
    have hkeep : (lines sdp).filter (fun line => (identity? (strip line)).isNone) = lines sdp := by
      rw [List.filter_eq_self]
      intro line hline
      rw [List.filterMap_eq_nil_iff.mp (List.getLast?_eq_none_iff.mp hnone) line hline]
      rfl
    rw [stripIdentity, hkeep, flatten_lines]
  · obtain ⟨_, _, h⟩ := bind_eq_ok.mp h
    exact (Prod.mk.inj (Except.ok.inj h)).1.symm

theorem extractIdentity_of_none {sdp : Str} (h : identities sdp = []) : extractIdentity F sdp = .ok (sdp, none) := by
  rw [extractIdentity, h]
  rfl

/-- An envelope put into a text without one stands as one line in its place, is extracted as
it was built and leaves the text as it was; and what is extracted from any text is that text
stripped, in which there is nothing more to extract. The three strings are such as JSON gives
back: no high surrogate stands right before a low one. -/
theorem envelope_round_trip (F : Type) [Runtime F] :
    (∀ s domain token fingerprints : Str, identities s = [] →
      (s = [] ∨ Closed s ∨ ∃ line ∈ lines s, (str "m=").isPrefixOf line = true) →
      Json.Unpaired domain → Json.Unpaired token → Json.Unpaired fingerprints →
      ∃ envelope, buildEnvelope F domain token fingerprints = .ok envelope ∧
        let line := str "a=identity:" ++ envelope ++ newline s
        let t := insertIdentity s envelope
        identityLines t = [line] ∧ InPlace line s t ∧ stripIdentity t = s ∧
          extractIdentity F t = .ok (s, some ⟨domain, str "default", token, fingerprints⟩)) ∧
    ∀ (u first : Str) (envelope : Option IdentityEnvelope), extractIdentity F u = .ok (first, envelope) →
      first = stripIdentity u ∧ identityLines first = [] ∧ extractIdentity F first = .ok (first, none) := by
  refine ⟨fun s domain token fingerprints hnone hplace hd ht hj => ?_, fun u first envelope h => ?_⟩
  · obtain ⟨envelope, hbuilt, hvisible, hparsed⟩ := buildEnvelope_parsed (F := F) hd ht hj
    obtain ⟨hvalue, hstripped⟩ := insertIdentity_extracted hplace hnone hvisible
    obtain ⟨before, after, hlines, hins, hbefore, hafter⟩ := lines_insertIdentity hplace hvisible
    refine ⟨envelope, hbuilt, ?_, ⟨before, after, hlines, hins, hbefore, hafter⟩, hstripped, ?_⟩
    · have hquiet : ∀ {ls : List Str}, (∀ line ∈ ls, line ∈ lines s) →
          ls.filter (fun line => (identity? (strip line)).isSome) = [] := by
        intro ls hls
        rw [List.filter_eq_nil_iff]
        intro line hline
        rw [List.filterMap_eq_nil_iff.mp hnone line (hls line hline)]
        simp
      have hone : (identityLines (insertIdentity s envelope)).length = 1 := by
        rw [identityLines, ← List.countP_eq_length_filter, ← List.length_filterMap_eq_countP]
        exact congrArg List.length hvalue
      rw [identityLines, hins, List.filter_append, List.filter_cons, hquiet fun line hl => by simp [hlines, hl],
        hquiet fun line hl => by simp [hlines, hl]] at hone ⊢
      split
      · rfl
      · next hno =>
        rw [if_neg hno] at hone
        cases hone
    · rw [extractIdentity, hvalue]
      exact bind_eq_ok.mpr ⟨_, hparsed, by rw [hstripped]⟩
  · obtain rfl := extractIdentity_stripped h
    exact ⟨rfl, identityLines_eq_nil.mpr (identities_stripIdentity u), extractIdentity_of_none (identities_stripIdentity u)⟩

/-- A text whose second line has no line feed after its carriage return. -/
theorem envelope_round_trip_mixed :
    letI := Sample.runtime
    ∃ envelope, buildEnvelope Int (str "d") (str "t") (str "f") = .ok envelope ∧
      extractIdentity Int (insertIdentity (str "v=0\na=x\rm=x") envelope) =
        .ok (str "v=0\na=x\rm=x", some ⟨str "d", str "default", str "t", str "f"⟩) := by
  let _ := Sample.runtime
  obtain ⟨envelope, hbuilt, _, _, _, hextracted⟩ := (envelope_round_trip Int).1 (str "v=0\na=x\rm=x") (str "d") (str "t") (str "f")
    (by decide) (.inr (.inr (by decide))) (by decide) (by decide) (by decide)
  exact ⟨envelope, hbuilt, hextracted⟩

end NetherNet.Identity
