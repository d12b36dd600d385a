import NetherNet.Api.Connecting
import NetherNet.Api.OfferTexts
import NetherNet.Protocol.NetworkTexts

/-! Clients that dial one host over HTTP signaling, among strangers: a client applies no answer
but the one that a session of the host made for this client's description. -/
namespace NetherNet
open Library Identity

structure HttpNetwork (ι F : Type) [Cryptography] [Runtime F] where
  localIds : ι → NetworkId
  client : ι → HttpClient F
  server : HttpServer F
  /-- For each call of `_answer_offer` the client whose POST it is for, if it is no stranger's. -/
  origins : List (Option ι) := []

/-- What can happen. The POST of a client may arrive late, repeatedly or never. -/
inductive HttpNetworkEvent (ι F : Type) where
  | client (i : ι) (e : HttpClientEvent F)
  | arrives (i : ι) (validation : Validation) (connectionId : Nat)
  | server (e : HttpServerEvent F)

private theorem getElem?_concat_some {ι : Type} {origins : List (Option ι)} {o : Option ι} {call : Nat} {i : ι}
    (h : (origins ++ [o])[call]? = some (some i)) : origins[call]? = some (some i) ∨ call = origins.length ∧ o = some i := by
  rcases Nat.lt_trichotomy call origins.length with hlt | heq | hgt
  · exact Or.inl ((List.getElem?_append_left hlt).symm.trans h)
  · subst heq
    rw [List.getElem?_concat_length] at h
    exact Or.inr ⟨rfl, Option.some.inj h⟩
  · rw [List.getElem?_eq_none (by simp only [List.length_append, List.length_singleton]; omega)] at h
    cases h

private theorem getElem?_concat_old {ι : Type} {origins : List (Option ι)} (o : Option ι) {call : Nat} {i : ι} (h : origins[call]? = some (some i)) :
    (origins ++ [o])[call]? = some (some i) := by
  rw [List.getElem?_append_left (List.getElem?_eq_some_iff.mp h).1, h]

namespace HttpNetwork
section Network
variable [Cryptography] {ι F : Type} [Runtime F]

/-- `_handle_join`. A stranger's POST is one of the server's own events. -/
def next [Aiortc] [DecidableEq ι] (n : HttpNetwork ι F) : HttpNetworkEvent ι F → HttpNetwork ι F
  | .client i e => { n with client := Function.update n.client i ((n.client i).next e) }
  | .arrives i validation connectionId =>
    match (n.client i).posts with
    | [] => n
    | offer :: _ => { n with
        server := n.server.post (n.localIds i).str (Sdp.chars offer) validation connectionId
        origins := n.origins ++ [some i] }
  | .server e => { n with
      server := n.server.next e
      origins := match e with
        | .post _ _ _ _ => n.origins ++ [none]
        | _ => n.origins }

/-- Nothing has happened yet. -/
structure Fresh [Aiortc] (n : HttpNetwork ι F) : Prop where
  client : ∀ i, ∃ connectionId localId relayOnly capabilityCheck verifies signer,
    n.client i = HttpClient.new connectionId localId relayOnly capabilityCheck verifies signer
  calls : n.server.calls = []
  origins : n.origins = []
  built : ∀ i, (n.localIds i).Built

/-- A call for the POST of client `i` has returned this body. -/
def Replied (n : HttpNetwork ι F) (i : ι) (body : Text) : Prop :=
  ∃ (call : Nat) (signed : Str) (h : HttpConnection), n.origins[call]? = some (some i) ∧
    n.server.calls[call]? = some (.serving (.returned signed) h) ∧ body = Sdp.chars signed

/-- A 2xx reply to a client is one that the host made to its POST: no one else can reply in the
host's place, and a callback that rejects an offer does not do it with a 2xx status. -/
def Authentic (n : HttpNetwork ι F) : HttpNetworkEvent ι F → Prop
  | .client i (.reply (.response status (some body)) _ _) => status / 100 = 2 → n.Replied i body
  | _ => True

/-! ### What the host has been told -/

/-- Each call of the host is for the POST of its client, and each answer that a client was
given is the host's. -/
structure Linked (n : HttpNetwork ι F) : Prop where
  built : ∀ i, (n.localIds i).Built
  kept : ∀ i, (n.client i).Kept
  origins : n.origins.length = n.server.calls.length
  told : ∀ (call : Nat) i, n.origins[call]? = some (some i) → ∃ offer c, (n.client i).posts = [offer] ∧
    n.server.calls[call]? = some c ∧ HttpServer.Told n.server.identitySigner (n.localIds i).str (Sdp.chars offer) c
  replied : ∀ i, ∀ p ∈ (n.client i).replies, ∀ body, answerOf p.2 = .ok body → n.Replied i body

section Steps
variable [Aiortc] [DecidableEq ι]

omit [DecidableEq ι] in
theorem linked_fresh {n : HttpNetwork ι F} (h : n.Fresh) : n.Linked := by
  refine ⟨h.built, fun i => ?_, by rw [h.origins, h.calls]; rfl, fun call i horigin => ?_, fun i p hp => ?_⟩
  · obtain ⟨connectionId, localId, relayOnly, capabilityCheck, verifies, signer, heq⟩ := h.client i
    rw [heq]
    exact HttpClient.kept_new connectionId localId relayOnly capabilityCheck verifies signer
  · rw [h.origins] at horigin
    cases horigin
  · obtain ⟨connectionId, localId, relayOnly, capabilityCheck, verifies, signer, heq⟩ := h.client i
    rw [heq] at hp
    cases hp

theorem next_client (n : HttpNetwork ι F) (i j : ι) (e : HttpClientEvent F) :
    (n.next (.client i e)).client j = if j = i then (n.client j).next e else n.client j := by
  by_cases h : j = i
  · subst h
    simp [next]
  · simp [next, h]

/-- What was posted is not posted again. -/
private theorem posts_next {c : HttpClient F} (hk : c.Kept) (e : HttpClientEvent F) {offer : Str} (h : c.posts = [offer]) :
    (c.next e).posts = [offer] := by
  have hprefix := (c.grows_next e).posts
  rw [h] at hprefix
  rcases (HttpClient.kept_next hk e).posted with hnone | ⟨offer', hone, _⟩
  · rw [hnone] at hprefix
    cases List.prefix_nil.mp hprefix
  · rw [hone] at hprefix ⊢
    obtain ⟨rest, heq⟩ := hprefix
    cases heq
    rfl

omit [Aiortc] [DecidableEq ι] in
/-- An answer that was returned is returned after every event of the host. -/
private theorem Linked.server {n n' : HttpNetwork ι F} (hl : n.Linked) (hclient : n'.client = n.client) (hids : n'.localIds = n.localIds)
    (hsigner : n'.server.identitySigner = n.server.identitySigner)
    (hlength : n'.origins.length = n'.server.calls.length)
    (hold : ∀ (call : Nat) i, n.origins[call]? = some (some i) → n'.origins[call]? = some (some i))
    (hnew : ∀ (call : Nat) i, n'.origins[call]? = some (some i) → n.origins[call]? = some (some i) ∨
      ∃ offer c, (n.client i).posts = [offer] ∧ n'.server.calls[call]? = some c ∧
        HttpServer.Told n.server.identitySigner (n.localIds i).str (Sdp.chars offer) c)
    (hfollows : ∀ (call : Nat) c networkIdText posted, n.server.calls[call]? = some c →
      HttpServer.Told n.server.identitySigner networkIdText posted c →
      ∃ c', n'.server.calls[call]? = some c' ∧ HttpServer.Follows n.server.identitySigner networkIdText posted c c') : n'.Linked := by
  refine ⟨hids ▸ hl.built, hclient ▸ hl.kept, hlength, fun call i horigin => ?_, fun i p hp body hbody => ?_⟩
  · rw [hclient, hids, hsigner]
    rcases hnew call i horigin with horigin | hnew
    · obtain ⟨offer, c, hposts, hc, htold⟩ := hl.told call i horigin
      obtain ⟨c', hc', hf⟩ := hfollows call c _ _ hc htold
      exact ⟨offer, c', hposts, hc', hf.told⟩
    · exact hnew
  · rw [hclient] at hp
    obtain ⟨call, signed, h, horigin, hcall, hreply⟩ := hl.replied i p hp body hbody
    obtain ⟨offer, c, _, hc, htold⟩ := hl.told call i horigin
    obtain rfl := Option.some.inj (hc.symm.trans hcall)
    obtain ⟨c', hc', hf⟩ := hfollows call _ _ _ hc htold
    obtain ⟨h', rfl⟩ := hf.returned signed h rfl
    exact ⟨call, signed, h', hold call i horigin, hc', hreply⟩

private theorem Linked.client {n : HttpNetwork ι F} (hl : n.Linked) (i : ι) (e : HttpClientEvent F)
    (ha : n.Authentic (.client i e)) : (n.next (.client i e)).Linked := by
  refine ⟨hl.built, fun j => ?_, hl.origins, fun call j horigin => ?_, fun j p hp body hbody => ?_⟩
  · rw [next_client]
    split
    · exact HttpClient.kept_next (hl.kept j) e
    · exact hl.kept j
  · obtain ⟨offer, c, hposts, hc, htold⟩ := hl.told call j horigin
    refine ⟨offer, c, ?_, hc, htold⟩
    rw [next_client]
    split
    · exact posts_next (hl.kept j) e hposts
    · exact hposts
  · rw [next_client] at hp
    show n.Replied j body
    split at hp
    · next heq =>
      subst heq
      rcases ((n.client j).grows_next e).replies p hp with hp | hp
      · exact hl.replied j p hp body hbody
      · cases e with
        | reply reply clock validation =>
          obtain rfl := List.mem_singleton.mp hp
          obtain ⟨status, hreply, hstatus, _⟩ := (answerOf_accounted.1 reply body).mp hbody
          rw [hreply] at ha
          exact ha hstatus
        | _ => cases hp
    · exact hl.replied j p hp body hbody

omit [DecidableEq ι] in
private theorem Linked.posts {n : HttpNetwork ι F} (hl : n.Linked) (networkIdText posted : Text) (validation : Validation)
    (connectionId : Nat) (o : Option ι)
    (ho : ∀ i, o = some i → ∃ offer, (n.client i).posts = [offer] ∧ networkIdText = (n.localIds i).str ∧ posted = Sdp.chars offer) :
    Linked { n with server := n.server.post networkIdText posted validation connectionId, origins := n.origins ++ [o] } := by
  obtain ⟨hlength, hsigner⟩ := n.server.post_frame networkIdText posted validation connectionId
  refine hl.server rfl rfl hsigner ?_ (fun _ _ h => getElem?_concat_old o h) (fun call i horigin => ?_) fun call c nid text hc ht =>
    HttpServer.next_follows (.post networkIdText posted validation connectionId) hc ht
  · show (n.origins ++ [o]).length = _
    rw [hlength, List.length_append, List.length_singleton, hl.origins]
  · rcases getElem?_concat_some horigin with horigin | ⟨hcall, ho'⟩
    · exact Or.inl horigin
    · obtain ⟨offer, hposts, rfl, rfl⟩ := ho i ho'
      obtain ⟨c, hc, htold⟩ := n.server.post_told (n.localIds i).str (Sdp.chars offer) validation connectionId
      rw [hl.origins] at hcall
      exact Or.inr ⟨offer, c, hposts, hcall ▸ hc, htold⟩

theorem linked_next {n : HttpNetwork ι F} (hl : n.Linked) (e : HttpNetworkEvent ι F) (ha : n.Authentic e) : (n.next e).Linked := by
  cases e with
  | client i e => exact hl.client i e ha
  | arrives i validation connectionId =>
    simp only [next]
    split
    · exact hl
    · next offer rest hposts =>
      refine hl.posts _ _ validation connectionId (some i) fun j hj => ?_
      cases hj
      rcases (hl.kept i).posted with hnone | ⟨offer', hone, _⟩
      · rw [hnone] at hposts
        cases hposts
      · rw [hone] at hposts
        cases hposts
        exact ⟨offer, hone, rfl, rfl⟩
  | server e =>
    by_cases hpost : ∃ networkIdText posted validation connectionId, e = .post networkIdText posted validation connectionId
    · obtain ⟨networkIdText, posted, validation, connectionId, rfl⟩ := hpost
      exact hl.posts networkIdText posted validation connectionId none nofun
    · have hother : ∀ networkIdText posted validation connectionId, e ≠ .post networkIdText posted validation connectionId :=
        fun _ _ _ _ heq => hpost ⟨_, _, _, _, heq⟩
      have horigins : (n.next (.server e)).origins = n.origins := by
        cases e with
        | post networkIdText posted validation connectionId => exact absurd rfl (hother _ _ _ _)
        | _ => rfl
      obtain ⟨hlength, hsigner⟩ := n.server.next_frame e hother
      refine hl.server rfl rfl hsigner ?_ (fun _ _ h => horigins ▸ h) (fun _ _ h => Or.inl (horigins ▸ h)) fun _ _ _ _ hc ht =>
        HttpServer.next_follows e hc ht
      rw [horigins]
      exact hl.origins.trans hlength.symm

/-! ### What the clients apply -/

/-- The answers that the session of a call has made. -/
def answers : OfferCall → List Text
  | .serving _ h => h.loop.trace.filterMap fun
    | .answered _ sdp => some sdp
    | _ => none
  | _ => []

/-- What aiortc has written on both sides. -/
structure Written (n : HttpNetwork ι F) : Prop where
  client : ∀ i, (n.client i).h.loop.session.pc.localDescription.isSome = true → Plain (n.client i).h.loop.session.pc.localSdp
  server : ∀ c ∈ n.server.calls, ∀ sdp ∈ answers c, Plain sdp

/-- The session of some call for the POST of client `i` has the client as its remote peer, and made
this answer, and no other, for the client's description. -/
def AnsweredBy (n : HttpNetwork ι F) (i : ι) (answer : Text) : Prop :=
  ∃ (call : Nat) (signed : Str) (h : HttpConnection), n.origins[call]? = some (some i) ∧
    n.server.calls[call]? = some (.serving (.returned signed) h) ∧ h.loop.session.remoteId = n.localIds i ∧
    h.loop.trace.filter Effect.isAnswered = [.answered (n.client i).h.loop.session.pc.localSdp answer]

omit [Aiortc] [DecidableEq ι] in
/-- The answer that a client was granted is what the host signed, less the identity. -/
private theorem granted_body {c : HttpClient F} {answer : Text} (h : c.Granted answer) :
    ∃ p ∈ c.replies, ∃ body, answerOf p.2 = .ok body ∧ answer = Sdp.chars (stripIdentity (Sdp.codes body)) := by
  unfold HttpClient.Granted at h
  split at h
  · obtain ⟨identity, _, _, clock, reply, body, stripped, hmem, hbody, hverified, rfl⟩ := h
    obtain ⟨_, hchecked⟩ := verifyServerIdentity_eq_ok hverified
    exact ⟨_, hmem, body, hbody, by rw [hchecked.stripped]⟩
  · obtain ⟨_, clock, reply, body, hmem, hbody, heq⟩ := h
    exact ⟨_, hmem, body, hbody, heq⟩

omit [Aiortc] [DecidableEq ι] in
private theorem Linked.answered {n : HttpNetwork ι F} (hl : n.Linked) (hw : n.Written) {i : ι} {answer : Text}
    (ha : .setRemoteAnswer answer ∈ (n.client i).h.loop.trace) : n.AnsweredBy i answer := by
  have hmem : .setRemoteAnswer answer ∈ (n.client i).h.loop.trace.filter Effect.isApplied := List.mem_filter.mpr ⟨ha, rfl⟩
  rcases (hl.kept i).applied with hnone | ⟨answer', hone, hgranted⟩
  · rw [hnone.unapplied] at hmem
    cases hmem
  · rw [hone] at hmem
    cases List.mem_singleton.mp hmem
    obtain ⟨p, hp, body, hbody, hanswer⟩ := granted_body hgranted
    obtain ⟨call, signed, h, horigin, hcall, rfl⟩ := hl.replied i p hp body hbody
    obtain ⟨offer, c, hposts, hc, htold⟩ := hl.told call i horigin
    obtain rfl := Option.some.inj (hc.symm.trans hcall)
    obtain ⟨incoming, hincoming, hid, _, sdp, hfilter, hsigns⟩ := htold
    -- what the host was told is the client's description
    have hown : (n.client i).Own offer := by
      rcases (hl.kept i).posted with hnone | ⟨offer', hone', hown⟩
      · rw [hnone] at hposts
        cases hposts
      · rw [hone'] at hposts
        cases hposts
        exact hown
    obtain ⟨hoffer, hparse⟩ := hown.2.incoming (hw.client i hown.1) hincoming
    rw [(hl.built i).parse_str] at hparse
    -- what the client took is the host's answer
    have hmade : .answered incoming.sdp sdp ∈ h.loop.trace := by
      have hmem' : .answered incoming.sdp sdp ∈ h.loop.trace.filter Effect.isAnswered := by
        rw [hfilter]
        exact List.mem_cons_self
      exact (List.mem_filter.mp hmem').1
    have hplain : Plain sdp := hw.server _ (List.mem_of_getElem? hcall) sdp (List.mem_filterMap.mpr ⟨_, hmade, rfl⟩)
    obtain ⟨hcodes, hstripped⟩ := hsigns.stripped hplain
    rw [hcodes, hstripped, Sdp.chars_codes] at hanswer
    refine ⟨call, signed, h, horigin, hcall, hid.trans (Option.some.inj hparse).symm, ?_⟩
    rw [hfilter, hoffer, hanswer]

/-- In every run of clients and a host in which 2xx replies are the host's, whatever is lost, late,
repeated, refused or cancelled, with or without signers and callbacks: an answer that a
client applies was made by a session of the host, whose remote peer is the client, for exactly the
client's own description, and reaches the client unchanged. -/
theorem applies_own_answer (n : HttpNetwork ι F) (events : List (HttpNetworkEvent ι F)) (hn : n.Fresh)
    (h : Machine.Along Authentic next n events) (hw : (Machine.run next n events).Written) (i : ι) (answer : Text)
    (ha : .setRemoteAnswer answer ∈ ((Machine.run next n events).client i).h.loop.trace) :
    (Machine.run next n events).AnsweredBy i answer := by
  have hl : (Machine.run next n events).Linked :=
    Machine.run_invariant (fun (n : HttpNetwork ι F) e (hl : n.Linked) ha => linked_next hl e ha) (linked_fresh hn) h
  exact hl.answered hw ha

end Steps
end Network

/-! ### A dial -/

private def offerText : Text := "v=0\nm=x\n".toList
private def answerText : Text := "v=0\nm=y\n".toList

private def dialed :
    letI := Sample.runtime
    letI := Sample.cryptography
    letI : Aiortc := ⟨fun _ => true⟩
    HttpNetwork Unit Int :=
  letI := Sample.runtime
  letI := Sample.cryptography
  letI : Aiortc := ⟨fun _ => true⟩
  { localIds := fun _ => .p2p 5
    client := fun _ => .new 3 (.p2p 5) false false false none
    server := .new (.p2p 1) none false }

private def dialing : List (HttpNetworkEvent Unit Int) :=
  let goOn (sdp : Text) : SessionEvent Unit := .resume 0 (.ok sdp)
  [.client () (.session (goOn []) 0 (0, 0)), .client () (.session (goOn offerText) 0 (0, 0)), .arrives () .accepts 7,
    .server (.session 0 (goOn []) 0 (0, 0)), .server (.session 0 (goOn []) 0 (0, 0)), .server (.session 0 (goOn answerText) 0 (0, 0)),
    .client () (.reply (.response 200 (some answerText)) 0 .accepts)]

private theorem plain_of_closed {sdp : Text} (hclosed : (Sdp.codes sdp).getLast? = some lineFeed) (hnone : identities (Sdp.codes sdp) = []) :
    Plain sdp := ⟨Or.inl ⟨lineFeed, hclosed, rfl⟩, hnone⟩

private def returns (text : Text) : Option OfferCall → Bool
  | some (.serving (.returned signed) _) => signed = Sdp.codes text
  | _ => false

private theorem replied_of_returns [Cryptography] [Runtime Int] {n : HttpNetwork Unit Int} {text : Text} (hcall : returns text n.server.calls[0]? = true)
    (horigin : n.origins[0]? = some (some ())) : n.Replied () text := by
  unfold returns at hcall
  split at hcall
  · next signed h heq =>
    obtain rfl := of_decide_eq_true hcall
    exact ⟨0, _, h, horigin, heq, (Sdp.chars_codes text).symm⟩
  · cases hcall

/-- The client takes the answer of the host's one session. -/
theorem applies_own_answer_dialed :
    letI := Sample.runtime
    letI := Sample.cryptography
    letI : Aiortc := ⟨fun _ => true⟩
    .setRemoteAnswer answerText ∈ ((Machine.run next dialed dialing).client ()).h.loop.trace ∧
      (Machine.run next dialed dialing).AnsweredBy () answerText := by
  let _ := Sample.runtime
  let _ := Sample.cryptography
  let _ : Aiortc := ⟨fun _ => true⟩
  have hmem : .setRemoteAnswer answerText ∈ ((Machine.run next dialed dialing).client ()).h.loop.trace := by decide +kernel
  have hfresh : dialed.Fresh := ⟨fun _ => ⟨_, _, _, _, _, _, rfl⟩, rfl, rfl, fun _ => .p2p 5 _ rfl⟩
  have hauthentic : Machine.Along Authentic next dialed dialing := by
    refine ⟨trivial, trivial, trivial, trivial, trivial, trivial, fun _ => replied_of_returns ?_ ?_, trivial⟩
    · decide +kernel
    · decide +kernel
  have hwritten : (Machine.run next dialed dialing).Written := by
    refine ⟨fun i _ => ?_, fun c hc sdp hsdp => ?_⟩
    · cases i
      exact plain_of_closed (by decide +kernel) (by decide +kernel)
    · have hall : ((Machine.run next dialed dialing).server.calls.all fun c => (answers c).all (· = answerText)) = true := by
        decide +kernel
      obtain rfl := of_decide_eq_true (List.all_eq_true.mp (List.all_eq_true.mp hall c hc) sdp hsdp)
      exact plain_of_closed (by decide +kernel) (by decide +kernel)
  exact ⟨hmem, applies_own_answer dialed dialing hfresh hauthentic hwritten () answerText hmem⟩

end HttpNetwork
end NetherNet
