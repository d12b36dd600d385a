import NetherNet.Api.Offers
import NetherNet.Identity.Signing

/-! What a call of `_answer_offer` is told and what it returns: its session answers the offer that
was posted, less the identity, and an answer that was signed gives the session's own text back. -/
namespace NetherNet
open Library Identity

/-! ### Signed texts -/

/-- What aiortc writes: no `a=identity` line, and a place for one. -/
def Plain (sdp : Text) : Prop := Insertable (Sdp.codes sdp) ∧ identities (Sdp.codes sdp) = []

private theorem codes_chars {s : Str} (h : ∀ c ∈ s, ∃ d, c = CodePoint.ofChar d) : Sdp.codes (Sdp.chars s) = s := by
  have htext : ∃ text, s = Sdp.codes text := by
    induction s with
    | nil => exact ⟨[], rfl⟩
    | cons c rest ih =>
      obtain ⟨d, rfl⟩ := h c List.mem_cons_self
      obtain ⟨text, rfl⟩ := ih fun c hc => h c (List.mem_cons_of_mem _ hc)
      exact ⟨d :: text, rfl⟩
  obtain ⟨text, rfl⟩ := htext
  rw [Sdp.chars_codes]

private theorem char_of_ascii {c : CodePoint} (h : c.isAscii = true) : ∃ d, c = CodePoint.ofChar d := by
  have hlow : c.val < 0x80 := by simpa [CodePoint.isAscii] using h
  refine ⟨Char.ofNat c.val, Fin.ext ?_⟩
  show c.val = (Char.ofNat c.val).toNat
  rw [Char.ofNat, dif_pos (Or.inl (by omega))]
  rfl

private theorem mem_insertLine {identity : Str} {ls : List Str} {c : CodePoint} (h : c ∈ (insertLine identity ls).flatten) :
    c ∈ identity ∨ c ∈ ls.flatten := by
  induction ls with
  | nil => exact Or.inl (by simpa [insertLine] using h)
  | cons line rest ih =>
    rw [insertLine] at h
    split at h
    · rw [List.flatten_cons] at h
      exact List.mem_append.mp h
    · rw [List.flatten_cons] at h
      rw [List.flatten_cons, List.mem_append]
      rcases List.mem_append.mp h with h | h
      · exact Or.inr (Or.inl h)
      · rcases ih h with h | h
        · exact Or.inl h
        · exact Or.inr (Or.inr h)

private theorem chars_insertIdentity (sdp : Text) {envelope : Str} (he : ∀ c ∈ envelope, c.isAscii = true) :
    ∀ c ∈ insertIdentity (Sdp.codes sdp) envelope, ∃ d, c = CodePoint.ofChar d := by
  intro c hc
  rcases mem_insertLine hc with hc | hc
  · rcases List.mem_append.mp hc with hc | hc
    · rcases List.mem_append.mp hc with hc | hc
      · obtain ⟨d, _, rfl⟩ := List.mem_map.mp hc
        exact ⟨d, rfl⟩
      · exact char_of_ascii (he c hc)
    · refine char_of_ascii ?_
      unfold newline at hc
      split at hc <;> simp only [List.mem_cons, List.not_mem_nil, or_false] at hc
      · rcases hc with rfl | rfl <;> rfl
      · rw [hc]
        rfl
  · rw [flatten_lines] at hc
    obtain ⟨d, _, rfl⟩ := List.mem_map.mp hc
    exact ⟨d, rfl⟩

namespace HttpServer
section Texts
variable [Cryptography] {F : Type} [Runtime F]

private theorem envelope_of_sign {signer : IdentitySigner F} {clock : F} {nonces : Nat × Nat} {sdp signed : Str}
    (h : signer.sign clock nonces sdp = .ok signed) :
    ∃ envelope, signed = insertIdentity sdp envelope ∧ ∀ c ∈ envelope, c.isAscii = true ∧ 0x20 < c.val := by
  obtain ⟨token, _, h⟩ := bind_eq_ok.mp h
  obtain ⟨jws, _, h⟩ := bind_eq_ok.mp h
  obtain ⟨envelope, henvelope, h⟩ := bind_eq_ok.mp h
  obtain ⟨assertion, _, henvelope⟩ := bind_eq_ok.mp henvelope
  obtain ⟨outer, _, henvelope⟩ := bind_eq_ok.mp henvelope
  obtain ⟨data, _, henvelope⟩ := bind_eq_ok.mp henvelope
  cases h
  cases henvelope
  exact ⟨_, rfl, fun c hc => Base64.encode_visible hc⟩

/-- The transport does not change what was signed, and without its identity it is the plain text again. -/
theorem Signs.stripped {signer : Option (IdentitySigner F)} {sdp : Text} {signed : Str} (h : Signs signer sdp signed) (hp : Plain sdp) :
    Sdp.codes (Sdp.chars signed) = signed ∧ stripIdentity signed = Sdp.codes sdp := by
  cases signer with
  | none =>
    obtain rfl : signed = Sdp.codes sdp := h
    refine ⟨by rw [Sdp.chars_codes], ?_⟩
    rw [stripIdentity, List.filter_eq_self.mpr fun line hl => ?_, flatten_lines]
    rw [List.filterMap_eq_nil_iff.mp hp.2 line hl]
    rfl
  | some signer =>
    obtain ⟨clock, nonces, hsign⟩ := h
    obtain ⟨envelope, rfl, hvisible⟩ := envelope_of_sign hsign
    exact ⟨codes_chars (chars_insertIdentity sdp fun c hc => (hvisible c hc).1),
      (insertIdentity_extracted (Or.inr hp.1) hp.2 hvisible).2⟩

/-- The host takes a signed offer apart again. -/
theorem Signs.incoming {signer : Option (IdentitySigner F)} {sdp : Text} {signed : Str} (h : Signs signer sdp signed) (hp : Plain sdp)
    {networkIdText : Text} {offer : IncomingOffer} (hi : incomingOffer F networkIdText (Sdp.chars signed) = some offer) :
    offer.sdp = sdp ∧ NetworkId.parse networkIdText = some offer.networkId := by
  obtain ⟨hcodes, hstrip⟩ := h.stripped hp
  unfold incomingOffer at hi
  rw [hcodes] at hi
  split at hi
  · next text identity networkId hextracted hid =>
    obtain rfl := Option.some.inj hi
    refine ⟨?_, hid⟩
    have htext : text = Sdp.codes sdp := by
      cases identity with
      | some envelope =>
        obtain ⟨_, _, _, heq⟩ := extractIdentity_eq_ok hextracted
        exact heq.trans hstrip
      | none =>
        unfold extractIdentity at hextracted
        split at hextracted
        · next hnone =>
          obtain rfl : signed = text := congrArg Prod.fst (Except.ok.inj hextracted)
          rw [← hstrip, stripIdentity, List.filter_eq_self.mpr fun line hl => ?_, flatten_lines]
          rw [List.filterMap_eq_nil_iff.mp (List.getLast?_eq_none_iff.mp hnone) line hl]
          rfl
        · obtain ⟨_, _, heq⟩ := bind_eq_ok.mp hextracted
          cases heq
    show Sdp.chars text = sdp
    rw [htext, Sdp.chars_codes]
  · cases hi

/-! ### The calls -/

/-- The session of a call answers `offer` and no other, once, and what is returned is its answer. -/
def Answers (signer : Option (IdentitySigner F)) (offer : Text) (l : SessionLoop Unit) : Stage → Prop
  | .answering => (∃ a, l.tasks = [⟨.answering .answer offer a, ()⟩]) ∧ ∀ f ∈ l.trace, f.isAnswered = false
  | .closing | .raised => l.tasks = []
  | .returned signed => l.tasks = [] ∧ ∃ sdp, l.trace.filter Effect.isAnswered = [.answered offer sdp] ∧ Signs signer sdp signed

/-- The call was made for this POST. -/
def Told (signer : Option (IdentitySigner F)) (networkIdText posted : Text) : OfferCall → Prop
  | .validating offer => incomingOffer F networkIdText posted = some offer
  | .refused => True
  | .serving stage h => ∃ offer, incomingOffer F networkIdText posted = some offer ∧
      h.loop.session.remoteId = offer.networkId ∧ Answers signer offer.sdp h.loop stage

/-- What a call has become: still the call of its POST, and what it returned is returned. -/
structure Follows (signer : Option (IdentitySigner F)) (networkIdText posted : Text) (c c' : OfferCall) : Prop where
  told : Told signer networkIdText posted c'
  returned : ∀ signed h, c = .serving (.returned signed) h → ∃ h', c' = .serving (.returned signed) h'

private theorem Told.follows {signer : Option (IdentitySigner F)} {networkIdText posted : Text} {c : OfferCall}
    (ht : Told signer networkIdText posted c) : Follows signer networkIdText posted c c := ⟨ht, fun _ h heq => ⟨h, heq⟩⟩

/-- A call that has returned its answer. -/
def isReturned : OfferCall → Bool
  | .serving (.returned _) _ => true
  | _ => false

private theorem Told.unreturned {signer : Option (IdentitySigner F)} {networkIdText posted : Text} {c c' : OfferCall}
    (ht : Told signer networkIdText posted c') (hc : isReturned c = false) : Follows signer networkIdText posted c c' := by
  refine ⟨ht, fun signed h heq => ?_⟩
  rw [heq] at hc
  cases hc

variable [Aiortc]

private theorem answers_finished {signer : Option (IdentitySigner F)} {offer : Text} {l : SessionLoop Unit} {stage : Stage}
    (h : Answers signer offer l stage) (hfinished : l.tasks = []) {e : SessionEvent Unit} (he : SessionLoop.Uncalled e) :
    (l.step e).outcome = .none ∧ Answers signer offer (l.step e).loop stage := by
  obtain ⟨htasks, houtcome, hanswered⟩ := l.step_finished he hfinished
  refine ⟨houtcome, ?_⟩
  cases stage with
  | answering =>
    obtain ⟨⟨a, hone⟩, _⟩ := h
    rw [hfinished] at hone
    cases hone
  | closing => exact htasks
  | raised => exact htasks
  | returned signed =>
    obtain ⟨_, sdp, hfilter, hsigns⟩ := h
    refine ⟨htasks, sdp, ?_, hsigns⟩
    have hnone : (l.step e).effects.filter Effect.isAnswered = [] :=
      List.filter_eq_nil_iff.mpr fun f hf => by simp [hanswered f hf]
    rw [SessionLoop.step_trace, List.filter_append, hnone, List.append_nil, hfilter]

private theorem answers_answering {signer : Option (IdentitySigner F)} {offer : Text} {l : SessionLoop Unit}
    (h : Answers signer offer l .answering) {e : SessionEvent Unit} (he : SessionLoop.Uncalled e) :
    ((l.step e).outcome = .none ∧ Answers signer offer (l.step e).loop .answering) ∨
    ((l.step e).outcome = .raised () ∧ (l.step e).loop.tasks = []) ∨
    ∃ sdp, (l.step e).outcome = .returned () (some sdp) ∧
      ∀ stage, stage = .raised ∨ (∃ signed, stage = .returned signed ∧ Signs signer sdp signed) → Answers signer offer (l.step e).loop stage := by
  obtain ⟨⟨a, hone⟩, hanswered⟩ := h
  have htrace := l.step_trace e
  cases l.step_serves he hone with
  | waits a' ht ho hd hf =>
    refine Or.inl ⟨ho, ⟨a', ht⟩, fun f hmem => ?_⟩
    rw [htrace] at hmem
    rcases List.mem_append.mp hmem with hmem | hmem
    · exact hanswered f hmem
    · exact hf f hmem
  | raised ht ho hf => exact Or.inr (Or.inl ⟨ho, ht⟩)
  | returned sdp error ht ho hf =>
    refine Or.inr (Or.inr ⟨sdp, ho, fun stage hstage => ?_⟩)
    rcases hstage with rfl | ⟨signed, rfl, hsigns⟩
    · exact ht
    · refine ⟨ht, sdp, ?_, hsigns⟩
      have hnone : l.trace.filter Effect.isAnswered = [] := List.filter_eq_nil_iff.mpr fun f hmem => by simp [hanswered f hmem]
      rw [htrace, hf, List.filter_append, hnone]
      rfl

omit [Aiortc] in
private theorem absorb_calls (s : HttpServer F) (call : Nat) (stage : Stage) (h : HttpConnection) (stepped : SessionStep Unit) :
    (s.absorb call stage h stepped).calls = s.calls.set call (.serving stage (h.absorb stepped)) ∧
      (s.absorb call stage h stepped).identitySigner = s.identitySigner := by
  obtain ⟨hcalls, hsigner, _⟩ := foldl_callback stepped.effects (s.setCall call (.serving stage (h.absorb stepped))) call h.conn.connectionId
  exact ⟨hcalls, hsigner⟩

omit [Cryptography] [Runtime F] in
private theorem remoteId_step (h : HttpConnection) (e : SessionEvent Unit) :
    (h.loop.step e).loop.session.remoteId = h.loop.session.remoteId := (h.loop.next_identity e).2.1

omit [Cryptography] [Runtime F] [Aiortc] in
private theorem getElem?_set_here {calls : List OfferCall} {call : Nat} {c : OfferCall} (h : calls[call]? = some c) (c' : OfferCall) :
    (calls.set call c')[call]? = some c' := List.getElem?_set_self (List.getElem?_eq_some_iff.mp h).1

omit [Aiortc] in
private theorem signed_follows (s : HttpServer F) (clock : F) (nonces : Nat × Nat) (sdp : Text) :
    s.signed clock nonces sdp = .raised ∨ ∃ signed, s.signed clock nonces sdp = .returned signed ∧ Signs s.identitySigner sdp signed := by
  unfold HttpServer.signed
  split
  · next hnone =>
    refine Or.inr ⟨Sdp.codes sdp, rfl, ?_⟩
    rw [hnone]
    rfl
  · next signer hsome =>
    split
    · next signed hsigned =>
      refine Or.inr ⟨signed, rfl, ?_⟩
      rw [hsome]
      exact ⟨clock, nonces, hsigned⟩
    · exact Or.inl rfl

private theorem session_follows {s : HttpServer F} {call : Nat} {c : OfferCall} (hc : s.calls[call]? = some c) {networkIdText posted : Text}
    (ht : Told s.identitySigner networkIdText posted c) {e : SessionEvent Unit} (he : SessionLoop.Uncalled e) (clock : F) (nonces : Nat × Nat) :
    ∃ c', (s.sessionNext call e clock nonces).calls[call]? = some c' ∧ Follows s.identitySigner networkIdText posted c c' := by
  cases c with
  | validating offer => exact ⟨_, by simp only [sessionNext, hc], ht.follows⟩
  | refused => exact ⟨_, by simp only [sessionNext, hc], ht.follows⟩
  | serving stage h =>
    obtain ⟨hcalls, hsigner⟩ := absorb_calls s call stage h (h.loop.step e)
    obtain ⟨offer, hincoming, hid, hanswers⟩ := ht
    have hid' : (h.loop.step e).loop.session.remoteId = offer.networkId := (remoteId_step h e).trans hid
    -- the session goes on alone
    have stays : (h.loop.step e).outcome = .none → Answers s.identitySigner offer.sdp (h.loop.step e).loop stage →
        ∃ c', (s.sessionNext call e clock nonces).calls[call]? = some c' ∧
          Follows s.identitySigner networkIdText posted (.serving stage h) c' := by
      intro houtcome hanswers'
      refine ⟨.serving stage (h.absorb (h.loop.step e)), ?_, ⟨offer, hincoming, hid', hanswers'⟩, fun signed h₀ heq => ?_⟩
      · simp only [sessionNext, hc, houtcome, goOn, hcalls]
        exact getElem?_set_here hc _
      · cases heq
        exact ⟨_, rfl⟩
    by_cases hfinished : h.loop.tasks = []
    · obtain ⟨houtcome, hanswers'⟩ := answers_finished hanswers hfinished he
      exact stays houtcome hanswers'
    · cases stage with
      | closing => exact absurd hanswers hfinished
      | raised => exact absurd hanswers hfinished
      | returned signed => exact absurd hanswers.1 hfinished
      | answering =>
        rcases answers_answering hanswers he with ⟨houtcome, hanswers'⟩ | ⟨houtcome, htasks⟩ | ⟨sdp, houtcome, hanswers'⟩
        · exact stays houtcome hanswers'
        · let h' := h.absorb (h.loop.step e)
          have haclose := h'.loop.step_finished (SessionLoop.uncalled_aclose .failedToCreateAnswer) htasks
          refine ⟨.serving .closing (h'.absorb (h'.loop.step (.aclose (.member .failedToCreateAnswer)))), ?_, Told.unreturned ⟨offer, hincoming, ?_, ?_⟩ rfl⟩
          · simp only [sessionNext, hc, houtcome, goOn]
            rw [(absorb_calls _ _ _ _ _).1]
            simp only [hcalls, List.set_set]
            exact getElem?_set_here hc _
          · exact (remoteId_step h' _).trans hid'
          · exact haclose.1
        · refine ⟨.serving (s.signed clock nonces sdp) (h.absorb (h.loop.step e)), ?_, Told.unreturned ⟨offer, hincoming, hid', ?_⟩ rfl⟩
          · simp only [sessionNext, hc, houtcome, goOn, setCall, hcalls, List.set_set, HttpServer.signed, hsigner]
            exact getElem?_set_here hc _
          · exact hanswers' _ (signed_follows s clock nonces sdp)

/-- An `aclose` of a session changes no call but its own, and that only in its connection. -/
private theorem closeSession_follows {s : HttpServer F} {q : Nat} {c : OfferCall} (hc : s.calls[q]? = some c) {networkIdText posted : Text}
    (ht : Told s.identitySigner networkIdText posted c) (call : Nat) (error : SessionError) :
    ∃ c', (s.closeSession call error).calls[q]? = some c' ∧ Follows s.identitySigner networkIdText posted c c' := by
  unfold closeSession
  split
  · next stage h hhere =>
    obtain ⟨hcalls, _⟩ := absorb_calls s call stage h (h.loop.step (.aclose (.member error)))
    rw [hcalls]
    by_cases hq : q = call
    · subst hq
      obtain rfl := Option.some.inj (hc.symm.trans hhere)
      obtain ⟨offer, hincoming, hid, hanswers⟩ := ht
      refine ⟨_, getElem?_set_here hc _, ⟨offer, hincoming, (remoteId_step h _).trans hid, ?_⟩, fun signed h₀ heq => ?_⟩
      · by_cases hfinished : h.loop.tasks = []
        · exact (answers_finished hanswers hfinished (SessionLoop.uncalled_aclose error)).2
        · cases stage with
          | closing => exact absurd hanswers hfinished
          | raised => exact absurd hanswers hfinished
          | returned signed => exact absurd hanswers.1 hfinished
          | answering =>
            rcases answers_answering hanswers (SessionLoop.uncalled_aclose error) with ⟨_, hanswers'⟩ | ⟨houtcome, _⟩ | ⟨sdp, houtcome, _⟩
            · exact hanswers'
            · cases houtcome
            · cases houtcome
      · cases heq
        exact ⟨_, rfl⟩
    · exact ⟨c, (List.getElem?_set_ne (Ne.symm hq)).trans hc, ht.follows⟩
  · exact ⟨c, hc, ht.follows⟩

/-- Where a connection is made, its session is told the offer. -/
private theorem serve_told {s : HttpServer F} {call : Nat} (hlength : call < s.calls.length) {networkIdText posted : Text} {offer : IncomingOffer}
    (hi : incomingOffer F networkIdText posted = some offer) (connectionId : Nat) :
    ∃ h, (s.serve call offer connectionId).calls[call]? = some (.serving .answering h) ∧
      Told s.identitySigner networkIdText posted (.serving .answering h) := by
  let h := HttpConnection.new connectionId s.localId offer.networkId false s.relayOnly
  refine ⟨h.absorb (h.loop.step (.call (.answer offer.sdp) ())), ?_, offer, hi, rfl, ⟨.setRemoteDescription, rfl⟩, fun f hf => ?_⟩
  · rw [serve, (absorb_calls _ _ _ _ _).1]
    exact List.getElem?_set_self hlength
  · obtain rfl := List.mem_singleton.mp hf
    rfl

private theorem validate_told {s : HttpServer F} {call : Nat} (hlength : call < s.calls.length) {networkIdText posted : Text} {offer : IncomingOffer}
    (hi : incomingOffer F networkIdText posted = some offer) (connectionId : Nat) (validation : Validation) :
    ∃ c, (s.validate call offer connectionId validation).calls[call]? = some c ∧ Told s.identitySigner networkIdText posted c := by
  cases validation with
  | accepts =>
    obtain ⟨h, hcall, htold⟩ := serve_told hlength hi connectionId
    exact ⟨_, hcall, htold⟩
  | raises => exact ⟨.refused, List.getElem?_set_self hlength, trivial⟩
  | awaits => exact ⟨.validating offer, List.getElem?_set_self hlength, hi⟩

/-- The call that a POST makes. -/
theorem post_told (s : HttpServer F) (networkIdText posted : Text) (validation : Validation) (connectionId : Nat) :
    ∃ c, (s.post networkIdText posted validation connectionId).calls[s.calls.length]? = some c ∧
      Told s.identitySigner networkIdText posted c := by
  unfold post
  cases hi : incomingOffer F networkIdText posted with
  | none => exact ⟨.refused, List.getElem?_concat_length, trivial⟩
  | some offer => exact validate_told (s := { s with calls := s.calls ++ [.refused] }) (by simp) hi connectionId validation

private theorem acloseSessions_follows {s : HttpServer F} {q : Nat} {c : OfferCall} (hc : s.calls[q]? = some c) {networkIdText posted : Text}
    (ht : Told s.identitySigner networkIdText posted c) (rest : List Nat) :
    ∃ c', (s.acloseSessions rest).calls[q]? = some c' ∧ Follows s.identitySigner networkIdText posted c c' := by
  cases rest with
  | nil => exact ⟨c, hc, ht.follows⟩
  | cons call rest => exact closeSession_follows hc ht call .none

/-- Every event leaves a call the call of its POST. -/
theorem next_follows {s : HttpServer F} (e : HttpServerEvent F) {q : Nat} {c : OfferCall} (hc : s.calls[q]? = some c)
    {networkIdText posted : Text} (ht : Told s.identitySigner networkIdText posted c) :
    ∃ c', (s.next e).calls[q]? = some c' ∧ Follows s.identitySigner networkIdText posted c c' := by
  have same : ∃ c', s.calls[q]? = some c' ∧ Follows s.identitySigner networkIdText posted c c' := ⟨c, hc, ht.follows⟩
  by_cases hcaller : ∃ call, s.caller e = some call ∧ q ≠ call
  · obtain ⟨call, he, hq⟩ := hcaller
    exact ⟨c, (next_elsewhere s e he hq).trans hc, ht.follows⟩
  · have hhere : ∀ call, s.caller e = some call → q = call := fun call he => by_contra fun hq => hcaller ⟨call, he, hq⟩
    cases e with
    | post networkIdText' posted' validation connectionId =>
      have hlength : q < s.calls.length := (List.getElem?_eq_some_iff.mp hc).1
      exact absurd (hhere _ rfl) (Nat.ne_of_lt hlength)
    | validated call accepted connectionId =>
      obtain rfl := hhere _ rfl
      simp only [next]
      split
      · next offer hvalidating =>
        obtain rfl := Option.some.inj (hc.symm.trans hvalidating)
        obtain ⟨c', hc', htold⟩ := validate_told (List.getElem?_eq_some_iff.mp hc).1 ht connectionId (if accepted then .accepts else .raises)
        exact ⟨c', hc', htold.unreturned rfl⟩
      · exact same
    | session call e clock nonces =>
      obtain rfl := hhere _ rfl
      cases e with
      | call _ _ => exact same
      | close _ _ => exact same
      | aclose _ => exact same
      | _ =>
        apply session_follows hc ht
        trivial
    | connection call e =>
      obtain rfl := hhere _ rfl
      simp only [next]
      split
      · next stage h hserving =>
        obtain rfl := Option.some.inj (hc.symm.trans hserving)
        refine ⟨_, getElem?_set_here hc _, ht, fun signed h₀ heq => ?_⟩
        cases heq
        exact ⟨_, rfl⟩
      · exact same
    | close call error => exact closeSession_follows hc ht call error
    | tornDown call =>
      obtain rfl := hhere _ rfl
      simp only [next]
      split
      · next h hserving =>
        obtain rfl := Option.some.inj (hc.symm.trans hserving)
        exact ⟨.serving .raised h, getElem?_set_here hc _, Told.unreturned ht rfl⟩
      · exact same
    | aclose =>
      simp only [next]
      split <;> exact same
    | signalingClosed =>
      simp only [next]
      split
      · exact acloseSessions_follows hc ht _
      · exact same
    | sessionTornDown =>
      simp only [next]
      split
      · exact acloseSessions_follows hc ht _
      · exact same

/-! ### The list of the calls -/

omit [Aiortc] in
private theorem absorb_frame (s : HttpServer F) (call : Nat) (stage : Stage) (h : HttpConnection) (stepped : SessionStep Unit) :
    (s.absorb call stage h stepped).calls.length = s.calls.length ∧ (s.absorb call stage h stepped).identitySigner = s.identitySigner := by
  obtain ⟨hcalls, hsigner⟩ := absorb_calls s call stage h stepped
  exact ⟨by rw [hcalls, List.length_set], hsigner⟩

private theorem validate_frame (s : HttpServer F) (call : Nat) (offer : IncomingOffer) (connectionId : Nat) (validation : Validation) :
    (s.validate call offer connectionId validation).calls.length = s.calls.length ∧
      (s.validate call offer connectionId validation).identitySigner = s.identitySigner := by
  cases validation with
  | accepts => exact absorb_frame { s with conns := s.conns.set connectionId call } call .answering _ _
  | raises => exact ⟨List.length_set, rfl⟩
  | awaits => exact ⟨List.length_set, rfl⟩

theorem post_frame (s : HttpServer F) (networkIdText posted : Text) (validation : Validation) (connectionId : Nat) :
    (s.post networkIdText posted validation connectionId).calls.length = s.calls.length + 1 ∧
      (s.post networkIdText posted validation connectionId).identitySigner = s.identitySigner := by
  have hcalled : (s.calls ++ [OfferCall.refused]).length = s.calls.length + 1 := List.length_append
  unfold post
  split
  · exact ⟨hcalled, rfl⟩
  · obtain ⟨hlength, hsigner⟩ := validate_frame { s with calls := s.calls ++ [.refused] } s.calls.length _ connectionId validation
    exact ⟨hlength.trans hcalled, hsigner⟩

private theorem closeSession_frame (s : HttpServer F) (call : Nat) (error : SessionError) :
    (s.closeSession call error).calls.length = s.calls.length ∧ (s.closeSession call error).identitySigner = s.identitySigner := by
  unfold closeSession
  split
  · apply absorb_frame
  · exact ⟨rfl, rfl⟩

private theorem session_frame (s : HttpServer F) (call : Nat) (e : SessionEvent Unit) (clock : F) (nonces : Nat × Nat) :
    (s.sessionNext call e clock nonces).calls.length = s.calls.length ∧ (s.sessionNext call e clock nonces).identitySigner = s.identitySigner := by
  unfold sessionNext
  split
  · next stage h _ =>
    obtain ⟨hlength, hsigner⟩ := absorb_frame s call stage h (h.loop.step e)
    simp only [goOn]
    split
    · exact ⟨List.length_set.trans hlength, hsigner⟩
    · obtain ⟨hlength', hsigner'⟩ := absorb_frame { s.absorb call stage h (h.loop.step e) with
        conns := (s.absorb call stage h (h.loop.step e)).conns.pop (h.absorb (h.loop.step e)).conn.connectionId } call .closing
        (h.absorb (h.loop.step e)) ((h.absorb (h.loop.step e)).loop.step (.aclose (.member .failedToCreateAnswer)))
      exact ⟨hlength'.trans hlength, hsigner'.trans hsigner⟩
    · exact ⟨hlength, hsigner⟩
  · exact ⟨rfl, rfl⟩

private theorem acloseSessions_frame (s : HttpServer F) (rest : List Nat) :
    (s.acloseSessions rest).calls.length = s.calls.length ∧ (s.acloseSessions rest).identitySigner = s.identitySigner := by
  cases rest with
  | nil => exact ⟨rfl, rfl⟩
  | cons call rest => exact closeSession_frame s call .none

/-- A POST makes one call, and nothing else does. -/
theorem next_frame (s : HttpServer F) (e : HttpServerEvent F) (he : ∀ networkIdText posted validation connectionId,
    e ≠ .post networkIdText posted validation connectionId) :
    (s.next e).calls.length = s.calls.length ∧ (s.next e).identitySigner = s.identitySigner := by
  cases e with
  | post networkIdText posted validation connectionId => exact absurd rfl (he _ _ _ _)
  | validated call accepted connectionId =>
    simp only [next]
    split
    · apply validate_frame
    · exact ⟨rfl, rfl⟩
  | session call e clock nonces =>
    cases e with
    | call _ _ => exact ⟨rfl, rfl⟩
    | close _ _ => exact ⟨rfl, rfl⟩
    | aclose _ => exact ⟨rfl, rfl⟩
    | _ => exact session_frame s call _ clock nonces
  | connection call e =>
    simp only [next]
    split
    · exact ⟨List.length_set, rfl⟩
    · exact ⟨rfl, rfl⟩
  | close call error => exact closeSession_frame s call error
  | tornDown call =>
    simp only [next]
    split
    · exact ⟨List.length_set, rfl⟩
    · exact ⟨rfl, rfl⟩
  | aclose =>
    simp only [next]
    split <;> exact ⟨rfl, rfl⟩
  | signalingClosed =>
    simp only [next]
    split
    · apply acloseSessions_frame
    · exact ⟨rfl, rfl⟩
  | sessionTornDown =>
    simp only [next]
    split
    · apply acloseSessions_frame
    · exact ⟨rfl, rfl⟩

end Texts
end HttpServer
end NetherNet
