import NetherNet.Manager.Provenance
import NetherNet.Session.Dialing

/-! Two session managers and the signaling strings between them, each of which may be
lost, or delivered late, repeatedly and in any order. -/
namespace NetherNet
open Library

inductive Side where
  | left | right
  deriving DecidableEq, Repr

def Side.other : Side → Side
  | left => right
  | right => left

@[simp] theorem Side.other_other (side : Side) : side.other.other = side := by
  cases side <;> rfl

/-- A text that a session of the manager has sent. -/
def Manager.Sent (m : Manager) (text : Text) : Prop :=
  ∃ (r : Ref) (l : SessionLoop Caller), m.heap[r]? = some l ∧ .sendSignal text ∈ l.trace

/-- The two managers. -/
abbrev Peers := Side → Manager

namespace Peers

def new (localId : Side → NetworkId) (relayOnly : Side → Bool) : Peers :=
  fun side => Manager.new (localId side) (relayOnly side)

def next [Aiortc] (w : Peers) (e : Side × ManagerEvent) : Peers :=
  fun side => if side = e.1 then (w side).next e.2 else w side

/-- A manager is handed only what a session of the other has sent, and dials the other
only, under ids that neither has dialed before. -/
def Honest (w : Peers) : Side × ManagerEvent → Prop
  | (side, .deliver senderId text) => senderId = (w side.other).localId ∧ (w side.other).Sent text
  | (side, .connect remoteId k) => remoteId = (w side.other).localId ∧
      ∀ (side' : Side) (r : Ref) (l : SessionLoop Caller), (w side').heap[r]? = some l → l.session.isDialer = true →
        l.session.connectionId ≠ k
  | _ => True

/-! ### What a step of one manager keeps -/

/-- A session after the step `e`: one that was there, with more behind it, or a new one. -/
private def CameFrom (m : Manager) (e : ManagerEvent) (r : Ref) (l : SessionLoop Caller) : Prop :=
  (∃ l₀, m.heap[r]? = some l₀ ∧ l₀.trace <+: l.trace ∧ l.session.connectionId = l₀.session.connectionId ∧
      l.session.isDialer = l₀.session.isDialer) ∨
    r = m.heap.length ∧ (l.session.isDialer = true → ∃ remoteId, e = .connect remoteId l.session.connectionId)

private theorem came_from [Aiortc] (m : Manager) (e : ManagerEvent) (r : Ref) (l : SessionLoop Caller)
    (hl : (m.next e).heap[r]? = some l) : CameFrom m e r l := by
  have stayed : ∀ (r : Ref) (l : SessionLoop Caller), m.heap[r]? = some l → CameFrom m e r l :=
    fun r l hl => Or.inl ⟨l, hl, List.prefix_refl _, rfl, rfl⟩
  have stepped : ∀ (r : Ref) (l : SessionLoop Caller) (ev : SessionEvent Caller), CameFrom m e r l →
      CameFrom m e r (l.next ev) := by
    intro r l ev h
    obtain ⟨hid, _, hd⟩ := l.next_identity ev
    rw [CameFrom, hid, hd]
    rcases h with ⟨l₀, hl₀, htrace, hsame⟩ | hnew
    · exact Or.inl ⟨l₀, hl₀, htrace.trans ⟨_, (l.step_trace ev).symm⟩, hsame⟩
    · exact Or.inr hnew
  refine (Manager.step_acts m e).sessions (P := CameFrom m e) stayed ?_ ?_ ?_ ?_ ?_ r l hl
  · exact fun r ev l _ _ hl => stepped r l ev (stayed r l hl)
  · intro k remoteId isDialer c caller hk
    refine stepped _ _ _ (Or.inr ⟨rfl, fun hd => ?_⟩)
    cases hk with
    | dial he => exact ⟨remoteId, he⟩
    | listen sdp hs _ => cases hd
  · exact fun senderId parsed r l _ _ hl => stepped r l _ (stayed r l hl)
  · exact fun r l senderId parsed c rest _ h => stepped r l _ h
  · exact fun _ r l h => stepped r l _ h

/-- What was sent stays sent. -/
private theorem sent_next [Aiortc] {m : Manager} {text : Text} (e : ManagerEvent) (h : m.Sent text) : (m.next e).Sent text := by
  obtain ⟨r, l, hl, hmem⟩ := h
  obtain ⟨hlt, _⟩ := List.getElem?_eq_some_iff.mp hl
  have hlt' := Nat.lt_of_lt_of_le hlt (Manager.length_step m e)
  refine ⟨r, _, List.getElem?_eq_getElem hlt', ?_⟩
  rcases came_from m e r _ (List.getElem?_eq_getElem hlt') with ⟨l₀, hl₀, htrace, _⟩ | ⟨hnew, _⟩
  · obtain rfl := Option.some.inj (hl.symm.trans hl₀)
    exact htrace.subset hmem
  · exact absurd (hnew ▸ hlt) (Nat.lt_irrefl _)

private theorem dials_next [Aiortc] (m : Manager) (e : ManagerEvent)
    (hm : ∀ (r : Ref) (l : SessionLoop Caller), m.heap[r]? = some l → l.Dials) :
    ∀ (r : Ref) (l : SessionLoop Caller), (m.next e).heap[r]? = some l → l.Dials := by
  apply (Manager.step_acts m e).sessions (P := fun _ l => l.Dials) hm
  · intro r ev l _ hc hl
    refine l.dials_step ev (hm r l hl) ?_
    cases ev with
    | call c caller => cases hc
    | _ => trivial
  · intro k remoteId isDialer c caller hk
    cases hk with
    | dial _ => exact SessionLoop.dials_started k m.localId remoteId true m.relayOnly Caller.connect
    | listen sdp _ _ => exact SessionLoop.dials_step _ _ ⟨Nat.zero_le _, Nat.zero_le _⟩ trivial
  · exact fun senderId parsed r l _ _ hl => l.dials_step _ (hm r l hl) trivial
  · exact fun r l senderId parsed c rest _ hl => l.dials_step _ hl trivial
  · exact fun _ r l hl => l.dials_step _ hl trivial

/-! ### Agreement -/

/-- Each manager has its messages from the other, dialers have different ids, and each
session sends one request and applies one answer at most. -/
structure Agree [Aiortc] (w : Peers) : Prop where
  origins : ∀ side, (w side).Origins fun _ parsed =>
    ∃ text, (w side.other).Sent text ∧ SignalingMessage.parse text = some (some parsed)
  dialers : ∀ (side side' : Side) (r r' : Ref) (l l' : SessionLoop Caller), (w side).heap[r]? = some l →
    (w side').heap[r']? = some l' → l.session.isDialer = true → l'.session.isDialer = true →
    l.session.connectionId = l'.session.connectionId → side = side' ∧ r = r'
  dials : ∀ (side : Side) (r : Ref) (l : SessionLoop Caller), (w side).heap[r]? = some l → l.Dials

private theorem agree_new [Aiortc] (localId : Side → NetworkId) (relayOnly : Side → Bool) : (new localId relayOnly).Agree := by
  refine ⟨fun side => Manager.origins_new _ _ _, ?_, ?_⟩
  · intro side side' r r' l l' hl
    simp [new, Manager.new] at hl
  · intro side r l hl
    simp [new, Manager.new] at hl

private theorem next_at [Aiortc] (w : Peers) (side : Side) (e : ManagerEvent) : w.next (side, e) side = (w side).next e := by
  simp [next]

private theorem next_other [Aiortc] (w : Peers) (side : Side) (e : ManagerEvent) {side' : Side} (h : side' ≠ side) :
    w.next (side, e) side' = w side' := by
  simp [next, h]

/-- A session after a step of the two, as `came_from` says it. -/
private theorem came_from_peers [Aiortc] (w : Peers) (side : Side) (e : ManagerEvent) (side' : Side) (r : Ref)
    (l : SessionLoop Caller) (hl : (w.next (side, e) side').heap[r]? = some l) :
    (∃ l₀, (w side').heap[r]? = some l₀ ∧ l.session.connectionId = l₀.session.connectionId ∧
        l.session.isDialer = l₀.session.isDialer) ∨
      side' = side ∧ r = (w side).heap.length ∧
        (l.session.isDialer = true → ∃ remoteId, e = .connect remoteId l.session.connectionId) := by
  by_cases hside : side' = side
  · subst hside
    rw [next_at] at hl
    rcases came_from (w side') e r l hl with ⟨l₀, hl₀, _, hsame⟩ | hnew
    · exact Or.inl ⟨l₀, hl₀, hsame⟩
    · exact Or.inr ⟨rfl, hnew⟩
  · rw [next_other w side e hside] at hl
    exact Or.inl ⟨l, hl, rfl, rfl⟩

private theorem dialers_next [Aiortc] (w : Peers) (side : Side) (e : ManagerEvent) (hw : w.Agree) (he : w.Honest (side, e))
    {s s' : Side} {r r' : Ref} {l l' : SessionLoop Caller} (hl : (w.next (side, e) s).heap[r]? = some l)
    (hl' : (w.next (side, e) s').heap[r']? = some l') (hd : l.session.isDialer = true) (hd' : l'.session.isDialer = true)
    (hid : l.session.connectionId = l'.session.connectionId) : s = s' ∧ r = r' := by
  -- a dialer that is new has an id that no dialer had before
  have fresh : ∀ (k : Nat) (s : Side) (r : Ref) (l₀ : SessionLoop Caller), (∃ remoteId, e = .connect remoteId k) →
      (w s).heap[r]? = some l₀ → l₀.session.isDialer = true → l₀.session.connectionId ≠ k := by
    rintro k s r l₀ ⟨remoteId, rfl⟩ hl₀ hd₀
    exact he.2 s r l₀ hl₀ hd₀
  rcases came_from_peers w side e s r l hl with ⟨l₀, hl₀, hid₀, hd₀⟩ | ⟨rfl, rfl, hnew⟩
  · rcases came_from_peers w side e s' r' l' hl' with ⟨l₁, hl₁, hid₁, hd₁⟩ | ⟨_, _, hnew'⟩
    · exact hw.dialers s s' r r' l₀ l₁ hl₀ hl₁ (hd₀.symm.trans hd) (hd₁.symm.trans hd') (hid₀.symm.trans (hid.trans hid₁))
    · exact absurd (hid₀.symm.trans hid) (fresh _ s r l₀ (hnew' hd') hl₀ (hd₀.symm.trans hd))
  · rcases came_from_peers w s e s' r' l' hl' with ⟨l₁, hl₁, hid₁, hd₁⟩ | ⟨rfl, rfl, _⟩
    · exact absurd (hid₁.symm.trans hid.symm) (fresh _ s' r' l₁ (hnew hd) hl₁ (hd₁.symm.trans hd'))
    · exact ⟨rfl, rfl⟩

private theorem agree_next [Aiortc] (w : Peers) (e : Side × ManagerEvent) (hw : w.Agree) (he : w.Honest e) :
    (w.next e).Agree := by
  obtain ⟨side, e⟩ := e
  refine ⟨fun side' => ?_, fun s s' r r' l l' hl hl' hd hd' hid => dialers_next w side e hw he hl hl' hd hd' hid, ?_⟩
  · by_cases hside : side' = side
    · subst hside
      have hother : side'.other ≠ side' := by cases side' <;> decide
      rw [next_at, next_other w side' e hother]
      refine Manager.origins_step _ e (hw.origins side') ?_
      cases e with
      | deliver senderId text => exact fun parsed hparse => ⟨text, he.2, hparse⟩
      | _ => trivial
    · have hother : side'.other = side := by revert hside; cases side' <;> cases side <;> decide
      rw [next_other w side e hside, hother, next_at]
      refine (hw.origins side').mono fun _ parsed hgot => ?_
      obtain ⟨text, hsent, hparse⟩ := hgot
      exact ⟨text, sent_next e (hother ▸ hsent), hparse⟩
  · intro side' r l hl
    by_cases hside : side' = side
    · subst hside
      rw [next_at] at hl
      exact dials_next _ e (hw.dials side') r l hl
    · rw [next_other w side e hside] at hl
      exact hw.dials side' r l hl

/-- The one offer of a dialer. -/
private theorem offer_unique {l : SessionLoop Caller} (h : l.Dials) {k : Nat} {offer : Text}
    (hsent : .sendSignal (SignalingMessage.connectRequest k offer).serialize ∈ l.trace) (offer' : Text) :
    .sendSignal (SignalingMessage.connectRequest k offer').serialize ∈ l.trace ↔ offer' = offer := by
  constructor
  · intro hsent'
    have hrequests := h.requests
    have heq := eq_of_countP_le_one (p := Effect.isRequest) (by omega) hsent' hsent
      (by simp [SignalingMessage.identifier]) (by simp [SignalingMessage.identifier])
    exact SignalingMessage.data_eq_of_serialize (Effect.sendSignal.inj heq)
  · rintro rfl
    exact hsent

/-- Behind an offer that a listener has taken up stands the dialer of the other side that sent it. -/
private theorem offered_by_dialer [Aiortc] {w : Peers} (hw : w.Agree) {side : Side} {r : Ref} {l : SessionLoop Caller}
    (hl : (w side).heap[r]? = some l) {offer : Text} (h : .createAnswer offer ∈ l.trace) :
    ∃ (r' : Ref) (l' : SessionLoop Caller), (w side.other).heap[r']? = some l' ∧ l'.session.isDialer = true ∧
      l'.session.connectionId = l.session.connectionId ∧
      .sendSignal (SignalingMessage.connectRequest l.session.connectionId offer).serialize ∈ l'.trace := by
  obtain ⟨k, rfl, _, text, ⟨r', l', hl', hsent⟩, hparse⟩ := ((hw.origins side).sessions r l hl).1.effects _ h
  have hsaid : l'.Says text := ((hw.origins side.other).sessions r' l' hl').1.effects _ hsent
  rcases hsaid with ⟨error, rfl⟩ | ⟨candidate, rfl⟩ | ⟨offer', hd, rfl⟩ | ⟨offer', answer, _, _, rfl⟩
  · cases (SignalingMessage.of_parse_serialize hparse).1
  · cases (SignalingMessage.of_parse_serialize hparse).1
  · have heq := (SignalingMessage.of_parse_serialize hparse).2 (by simp [SignalingMessage.identifier])
    simp only [SignalingMessage.connectRequest.injEq] at heq
    obtain ⟨hid, rfl⟩ := heq
    exact ⟨r', l', hl', hd, hid.symm, hid ▸ hsent⟩
  · cases (SignalingMessage.of_parse_serialize hparse).1

/-- Behind an answer that a dialer applies stands the listener of the other side that made it. -/
private theorem answered_by_listener [Aiortc] {w : Peers} (hw : w.Agree) {side : Side} {r : Ref} {l : SessionLoop Caller}
    (hl : (w side).heap[r]? = some l) {sdp : Text} (h : .setRemoteAnswer sdp ∈ l.trace) :
    l.session.isDialer = true ∧ ∃ (offer answer : Text) (r' : Ref) (l' : SessionLoop Caller),
      (w side.other).heap[r']? = some l' ∧ l'.session.isDialer = false ∧
      l'.session.connectionId = l.session.connectionId ∧ .answered offer answer ∈ l'.trace ∧
      sdp = (Sdp.stripCandidates answer).1 := by
  obtain ⟨hd, k, rfl, _, text, ⟨r', l', hl', hsent⟩, hparse⟩ := ((hw.origins side).sessions r l hl).1.effects _ h
  have hsaid : l'.Says text := ((hw.origins side.other).sessions r' l' hl').1.effects _ hsent
  refine ⟨hd, ?_⟩
  rcases hsaid with ⟨error, rfl⟩ | ⟨candidate, rfl⟩ | ⟨offer', _, rfl⟩ | ⟨offer, answer, hlistener, hmade, rfl⟩
  · cases (SignalingMessage.of_parse_serialize hparse).1
  · cases (SignalingMessage.of_parse_serialize hparse).1
  · cases (SignalingMessage.of_parse_serialize hparse).1
  · have heq := (SignalingMessage.of_parse_serialize hparse).2 (by simp [SignalingMessage.identifier])
    simp only [SignalingMessage.connectResponse.injEq] at heq
    exact ⟨offer, answer, r', l', hl', hlistener, heq.1.symm, hmade, heq.2⟩

/-- In every run of two honest managers: what a dialer applies is the answer, without its
candidates, that a listener of the other side with the same connection id made from the
one offer the dialer sent; a dialer applies one answer at most; and a listener takes up
the one offer of the dialer with its connection id, and no other. -/
theorem peers_agree [Aiortc] (localId : Side → NetworkId) (relayOnly : Side → Bool) (events : List (Side × ManagerEvent))
    (h : Machine.Along Honest next (new localId relayOnly) events) (side : Side) (r : Ref) (l : SessionLoop Caller)
    (hl : (Machine.run next (new localId relayOnly) events side).heap[r]? = some l) :
    (∀ sdp, .setRemoteAnswer sdp ∈ l.trace → l.session.isDialer = true ∧
      ∃ (offer answer : Text) (r' : Ref) (l' : SessionLoop Caller),
        (Machine.run next (new localId relayOnly) events side.other).heap[r']? = some l' ∧ l'.session.isDialer = false ∧
        l'.session.connectionId = l.session.connectionId ∧ .answered offer answer ∈ l'.trace ∧
        sdp = (Sdp.stripCandidates answer).1 ∧
        ∀ offer', .sendSignal (SignalingMessage.connectRequest l.session.connectionId offer').serialize ∈ l.trace ↔
          offer' = offer) ∧
    l.trace.countP Effect.isApplied ≤ 1 ∧
    ∀ offer, .createAnswer offer ∈ l.trace → ∃ (r' : Ref) (l' : SessionLoop Caller),
      (Machine.run next (new localId relayOnly) events side.other).heap[r']? = some l' ∧ l'.session.isDialer = true ∧
      l'.session.connectionId = l.session.connectionId ∧
      ∀ offer', .sendSignal (SignalingMessage.connectRequest l.session.connectionId offer').serialize ∈ l'.trace ↔
        offer' = offer := by
  have hw : (Machine.run next (new localId relayOnly) events).Agree :=
    Machine.run_invariant agree_next (agree_new localId relayOnly) h
  refine ⟨fun sdp happlied => ?_, ?_, fun offer hcreate => ?_⟩
  · obtain ⟨hd, offer, answer, r', l', hl', hlistener, hid, hmade, hsdp⟩ := answered_by_listener hw hl happlied
    refine ⟨hd, offer, answer, r', l', hl', hlistener, hid, hmade, hsdp, ?_⟩
    have hcreate : .createAnswer offer ∈ l'.trace := ((hw.origins side.other).sessions r' l' hl').1.effects _ hmade
    obtain ⟨r'', l'', hl'', hdialer, hid', hsent⟩ := offered_by_dialer hw hl' hcreate
    rw [Side.other_other] at hl''
    -- the dialers have different ids, so the one that sent the offer is this one
    obtain ⟨_, rfl⟩ := hw.dialers side side r'' r l'' l hl'' hl hdialer hd (hid'.trans hid)
    obtain rfl := Option.some.inj (hl.symm.trans hl'')
    rw [hid] at hsent
    exact offer_unique (hw.dials side r'' l hl) hsent
  · have happlies := (hw.dials side r l hl).applies
    omega
  · obtain ⟨r', l', hl', hd, hid, hsent⟩ := offered_by_dialer hw hl hcreate
    exact ⟨r', l', hl', hd, hid, offer_unique (hw.dials side.other r' l' hl') hsent⟩

private theorem sent_of_any {m : Manager} {text : Text} (h : m.heap.any (fun l => l.trace.contains (.sendSignal text)) = true) :
    m.Sent text := by
  obtain ⟨l, hl, hmem⟩ := List.any_eq_true.mp h
  obtain ⟨r, hr⟩ := List.getElem?_of_mem hl
  exact ⟨r, l, hr, List.contains_iff_mem.mp hmem⟩

/-- One exchange: the left side dials, the right side answers, the left side applies the answer. -/
theorem peers_agree_exchange :
    letI : Aiortc := ⟨fun _ => true⟩
    let request := (SignalingMessage.connectRequest 7 []).serialize
    let response := (SignalingMessage.connectResponse 7 []).serialize
    let goOn : ManagerEvent := .session 0 (.resume 0 (.ok []))
    let localId : Side → NetworkId := fun side => match side with | .left => .p2p 1 | .right => .p2p 2
    let w := Machine.run next (new localId fun _ => false)
      [(.left, .connect (.p2p 2) 7), (.left, goOn), (.left, goOn), (.right, .deliver (.p2p 1) request), (.right, .start 0),
        (.right, goOn), (.right, goOn), (.right, goOn), (.left, .deliver (.p2p 2) response), (.left, .start 0)]
    ∃ l, (w .left).heap[0]? = some l ∧ .setRemoteAnswer [] ∈ l.trace ∧ l.trace.countP Effect.isApplied ≤ 1 ∧
      ∃ (offer answer : Text) (r' : Ref) (l' : SessionLoop Caller), (w .right).heap[r']? = some l' ∧
        .answered offer answer ∈ l'.trace ∧ [] = (Sdp.stripCandidates answer).1 := by
  let _ : Aiortc := ⟨fun _ => true⟩
  intro request response goOn localId w
  have along : Machine.Along Honest next (new localId fun _ => false)
      [(.left, .connect (.p2p 2) 7), (.left, goOn), (.left, goOn), (.right, .deliver (.p2p 1) request), (.right, .start 0),
        (.right, goOn), (.right, goOn), (.right, goOn), (.left, .deliver (.p2p 2) response), (.left, .start 0)] := by
    refine ⟨⟨rfl, ?_⟩, trivial, trivial, ⟨by decide +kernel, sent_of_any (by decide +kernel)⟩, trivial, trivial, trivial,
      trivial, ⟨by decide +kernel, sent_of_any (by decide +kernel)⟩, trivial, trivial⟩
    intro side r l hl
    simp [new, Manager.new] at hl
  have hheap : ∃ l, (w .left).heap[0]? = some l ∧ .setRemoteAnswer [] ∈ l.trace :=
    ⟨((w .left).heap[0]?).getD (SessionLoop.fresh (Session.new 0 .unset .unset true false)), by decide +kernel, by decide +kernel⟩
  obtain ⟨l, hl, happlied⟩ := hheap
  obtain ⟨applies, once, _⟩ := peers_agree localId (fun _ => false) _ along .left 0 l hl
  obtain ⟨_, offer, answer, r', l', hl', _, _, hmade, hsdp, _⟩ := applies [] happlied
  exact ⟨l, hl, happlied, once, offer, answer, r', l', hl', hmade, hsdp⟩

end Peers
end NetherNet
