import NetherNet.Api.HttpClient
import NetherNet.Api.Offers
import NetherNet.Session.Requesting

/-! What `connect_http` leaves behind, however it ends: at most one offer was posted and one
answer applied, which was verified before, and a call that raised has closed its session. -/
namespace NetherNet
open Library Identity

namespace HttpConnection

/-- The future of a connection follows the callbacks of its session. -/
structure Resolves (h : HttpConnection) : Prop where
  pending : h.conn.connected = .pending → ∀ f ∈ h.loop.trace, f.isSettling = false
  connected : h.conn.connected = .connected → .onOpen ∈ h.loop.trace

private theorem failedWith_done (error : ErrorCode) {future : Future} (h : future ≠ .pending) :
    Connection.failedWith error future = .ok future := by
  cases future with
  | pending => exact absurd rfl h
  | connected => rfl
  | cancelled => rfl
  | failed e => rfl

private theorem markClosed_connected (c : Connection) {error : ErrorCode} (h : error.IsMember) :
    (c.markClosed error).1.connected ≠ .pending ∧ ((c.markClosed error).1.connected = .connected → c.connected = .connected) ∧
      (c.connected ≠ .pending → (c.markClosed error).1.connected = c.connected) := by
  obtain ⟨m, rfl⟩ := h
  by_cases hc : c.connected = .pending
  · simp only [Connection.markClosed, hc, Connection.failedWith, Exn.ofFailed, Except.map]
    exact ⟨nofun, nofun, fun hne => absurd rfl hne⟩
  · simp only [Connection.markClosed, failedWith_done _ hc]
    exact ⟨hc, id, fun _ => trivial⟩

private theorem callback_connected (c : Connection) (f : Effect) (h : ∀ error, f = .onClose error → error.IsMember) :
    ((callback c f).connected = .pending → c.connected = .pending ∧ f.isSettling = false) ∧
      ((callback c f).connected = .connected → c.connected = .connected ∨ f = .onOpen) ∧
      (c.connected ≠ .pending → (callback c f).connected = c.connected) := by
  cases f with
  | onClose error =>
    obtain ⟨hpending, hconnected, hdone⟩ := markClosed_connected c (h error rfl)
    exact ⟨fun hp => absurd hp hpending, fun hc => Or.inl (hconnected hc), hdone⟩
  | onOpen =>
    simp only [callback, Connection.markConnected]
    split
    · next hp => exact ⟨fun h => (by cases h), fun _ => Or.inr trivial, fun hne => absurd hp hne⟩
    · next hne => exact ⟨fun hp => absurd hp hne, Or.inl, fun _ => rfl⟩
  | _ => exact ⟨fun hp => ⟨hp, rfl⟩, Or.inl, fun _ => rfl⟩

private theorem foldl_callback_connected (c : Connection) (effects : List Effect)
    (h : ∀ error, .onClose error ∈ effects → error.IsMember) :
    ((effects.foldl callback c).connected = .pending → c.connected = .pending ∧ ∀ f ∈ effects, f.isSettling = false) ∧
      ((effects.foldl callback c).connected = .connected → c.connected = .connected ∨ .onOpen ∈ effects) ∧
      (c.connected ≠ .pending → (effects.foldl callback c).connected = c.connected) := by
  induction effects generalizing c with
  | nil => exact ⟨fun hp => ⟨hp, nofun⟩, Or.inl, fun _ => rfl⟩
  | cons f effects ih =>
    obtain ⟨hpending, hconnected, hdone⟩ := callback_connected c f fun error he => h error (he ▸ List.mem_cons_self)
    obtain ⟨ihpending, ihconnected, ihdone⟩ := ih (callback c f) fun error he => h error (List.mem_cons_of_mem _ he)
    refine ⟨fun hp => ?_, fun hc => ?_, fun hne => ?_⟩
    · obtain ⟨hp, hrest⟩ := ihpending hp
      obtain ⟨hp, hf⟩ := hpending hp
      exact ⟨hp, List.forall_mem_cons.mpr ⟨hf, hrest⟩⟩
    · rcases ihconnected hc with hc | hopen
      · rcases hconnected hc with hc | rfl
        · exact Or.inl hc
        · exact Or.inr List.mem_cons_self
      · exact Or.inr (List.mem_cons_of_mem _ hopen)
    · rw [List.foldl_cons, ihdone (by rw [hdone hne]; exact hne), hdone hne]

variable [Aiortc]

/-- The future after a step. -/
theorem absorb_connected (h : HttpConnection) {e : SessionEvent Unit}
    (hcode : ∀ error, .onClose error ∈ (h.loop.step e).effects → error.IsMember) :
    ((h.absorb (h.loop.step e)).conn.connected = .pending →
      h.conn.connected = .pending ∧ ∀ f ∈ (h.loop.step e).effects, f.isSettling = false) ∧
    ((h.absorb (h.loop.step e)).conn.connected = .connected → h.conn.connected = .connected ∨ .onOpen ∈ (h.loop.step e).effects) ∧
    (h.conn.connected ≠ .pending → (h.absorb (h.loop.step e)).conn.connected = h.conn.connected) :=
  foldl_callback_connected h.conn _ hcode

theorem resolves_step {h : HttpConnection} (hr : h.Resolves) {e : SessionEvent Unit}
    (hcode : ∀ error, .onClose error ∈ (h.loop.step e).effects → error.IsMember) : (h.absorb (h.loop.step e)).Resolves := by
  obtain ⟨hpending, hconnected, _⟩ := absorb_connected h hcode
  have htrace : (h.absorb (h.loop.step e)).loop.trace = h.loop.trace ++ (h.loop.step e).effects := h.loop.step_trace e
  refine ⟨fun hp f hf => ?_, fun hc => ?_⟩
  · obtain ⟨hp, heffects⟩ := hpending hp
    rw [htrace] at hf
    rcases List.mem_append.mp hf with hf | hf
    · exact hr.pending hp f hf
    · exact heffects f hf
  · rw [htrace]
    rcases hconnected hc with hc | hopen
    · exact List.mem_append_left _ (hr.connected hc)
    · exact List.mem_append_right _ hopen

end HttpConnection
/-! ### The call -/

namespace HttpClient
section Client
variable [Cryptography] {F : Type} [Runtime F]

/-- The identity that the reply to the POST came with, and what is left of the reply without it. -/
def Verified (c : HttpClient F) (answer : Text) (identity : ServerIdentity F) : Prop :=
  c.posts ≠ [] ∧ ∃ clock reply body stripped, (clock, reply) ∈ c.replies ∧ answerOf reply = .ok body ∧
    verifyServerIdentity clock (Sdp.codes body) = .ok (stripped, identity) ∧ answer = Sdp.chars stripped

/-- The answer of the POST, whose identity `on_server_identity` has accepted, or was cut out where
there is no such callback. -/
def Granted (c : HttpClient F) (answer : Text) : Prop :=
  if c.verifies then ∃ identity ∈ c.approved, c.Verified answer identity
  else c.posts ≠ [] ∧ ∃ clock reply body, (clock, reply) ∈ c.replies ∧ answerOf reply = .ok body ∧
    answer = Sdp.chars (stripIdentity (Sdp.codes body))

/-- The description of its own session, signed where there is a signer. -/
def Own (c : HttpClient F) (offer : Str) : Prop :=
  c.h.loop.session.pc.localDescription.isSome = true ∧ HttpServer.Signs c.identitySigner c.h.loop.session.pc.localSdp offer

/-- No answer is applied yet, and so no channel is open. -/
structure Unanswered (l : SessionLoop Unit) : Prop where
  unapplied : l.trace.filter Effect.isApplied = []
  remote : l.session.pc.remoteDescriptionSet = false
  unopened : .onOpen ∉ l.trace

/-- What holds while the call is suspended, by the place where it is. -/
def AtStage (c : HttpClient F) : Dialing F → Prop
  | .offering => (∃ a, c.h.loop.tasks = [⟨.offering .offer a, ()⟩]) ∧ Unanswered c.h.loop ∧ c.posts = [] ∧ c.replies = []
  | .checking offer => c.h.loop.tasks = [] ∧ Unanswered c.h.loop ∧ c.posts = [] ∧ c.replies = [] ∧ c.Own offer ∧
      (c.h.conn.connected = .pending → c.h.loop.session.state = .offerSent)
  | .posting offer => c.h.loop.tasks = [] ∧ Unanswered c.h.loop ∧ c.posts = [offer] ∧ c.replies = [] ∧
      (c.h.conn.connected = .pending → c.h.loop.session.state = .offerSent)
  | .deciding answer identity => c.h.loop.tasks = [] ∧ Unanswered c.h.loop ∧ c.Verified answer identity ∧ c.verifies = true ∧
      (c.h.conn.connected = .pending → c.h.loop.session.state = .offerSent)
  | .accepting => (∃ answer a, c.h.loop.tasks = [⟨.applying .acceptAnswer answer a, ()⟩]) ∧
      c.h.loop.trace.filter Effect.isApplied ≠ [] ∧
      (c.h.conn.connected = .pending → c.h.loop.session.state = .negotiating)
  | .connecting => c.h.loop.tasks = [] ∧ (c.h.conn.connected = .pending → c.h.loop.session.state = .negotiating)
  | .aborting _ | .raised _ => c.h.loop.tasks = [] ∧ c.h.loop.session.state = .closed
  | .returned => c.h.loop.tasks = [] ∧ c.h.conn.connected = .connected

/-- What holds wherever the call is suspended. -/
structure Books (c : HttpClient F) : Prop where
  marked : c.h.Marked
  resolves : c.h.Resolves
  posted : c.posts = [] ∨ ∃ offer, c.posts = [offer] ∧ c.Own offer
  replied : c.replies.length ≤ c.posts.length
  applied : Unanswered c.h.loop ∨ ∃ answer, c.h.loop.trace.filter Effect.isApplied = [.setRemoteAnswer answer] ∧ c.Granted answer

structure Kept (c : HttpClient F) : Prop extends c.Books where
  stage : c.AtStage c.stage

variable [Aiortc]

/-! ### A step of the session -/

omit [Aiortc] [Cryptography] in
private theorem localSdp_eq {pc pc' : PeerConnection} (hl : pc'.localDescription = pc.localDescription)
    (hr : pc'.relayOnly = pc.relayOnly) : pc'.localSdp = pc.localSdp := by
  rw [PeerConnection.localSdp, PeerConnection.localSdp, hl, hr]

omit [Cryptography] in
private theorem filter_step {l : SessionLoop Unit} {e : SessionEvent Unit} (hf : ∀ f ∈ (l.step e).effects, f.isApplied = false) :
    (l.step e).loop.trace.filter Effect.isApplied = l.trace.filter Effect.isApplied := by
  have hnone : (l.step e).effects.filter Effect.isApplied = [] := List.filter_eq_nil_iff.mpr fun f hmem => by simp [hf f hmem]
  rw [SessionLoop.step_trace, List.filter_append, hnone, List.append_nil]

omit [Cryptography] in
private theorem unanswered_step {l : SessionLoop Unit} {e : SessionEvent Unit} (h : Unanswered l)
    (hr : (l.step e).loop.session.pc.remoteDescriptionSet = l.session.pc.remoteDescriptionSet)
    (hf : ∀ f ∈ (l.step e).effects, f.isApplied = false) (ho : .onOpen ∉ (l.step e).effects) : Unanswered (l.step e).loop := by
  refine ⟨(filter_step hf).trans h.unapplied, hr.trans h.remote, ?_⟩
  rw [SessionLoop.step_trace, List.mem_append, not_or]
  exact ⟨h.unopened, ho⟩

omit [Cryptography] in
private theorem unanswered_idles {l : SessionLoop Unit} {e : SessionEvent Unit} (h : Unanswered l) (hi : SessionLoop.Idles l (l.step e)) :
    Unanswered (l.step e).loop := unanswered_step h hi.remote hi.unapplied (hi.unopened h.remote)

/-- The books after a step that applies no answer and sets no local description. -/
private theorem Books.absorb {c : HttpClient F} (hb : c.Books) {e : SessionEvent Unit}
    (hcode : ∀ error, .onClose error ∈ (c.h.loop.step e).effects → error.IsMember)
    (hl : c.posts = [] ∨ (c.h.loop.step e).loop.session.pc.localDescription = c.h.loop.session.pc.localDescription)
    (hf : ∀ f ∈ (c.h.loop.step e).effects, f.isApplied = false)
    (hu : Unanswered c.h.loop → Unanswered (c.h.loop.step e).loop) : (c.absorb (c.h.loop.step e)).Books := by
  refine ⟨HttpConnection.marked_step hb.marked hcode, HttpConnection.resolves_step hb.resolves hcode, ?_, hb.replied, ?_⟩
  · rcases hb.posted with hnone | ⟨offer, hone, hlocal, hsigns⟩
    · exact Or.inl hnone
    · rcases hl with hnone | hl
      · exact Or.inl hnone
      · refine Or.inr ⟨offer, hone, ?_, ?_⟩
        · show (c.h.loop.step e).loop.session.pc.localDescription.isSome = true
          rw [hl]
          exact hlocal
        · show HttpServer.Signs c.identitySigner (c.h.loop.step e).loop.session.pc.localSdp offer
          rw [localSdp_eq hl (c.h.loop.step_relayOnly e)]
          exact hsigns
  · rcases hb.applied with hnone | ⟨answer, hone, hgranted⟩
    · exact Or.inl (hu hnone)
    · exact Or.inr ⟨answer, (filter_step hf).trans hone, hgranted⟩

private theorem Books.idles {c : HttpClient F} (hb : c.Books) {e : SessionEvent Unit} (he : SessionLoop.Uncalled e)
    (hi : SessionLoop.Idles c.h.loop (c.h.loop.step e)) : (c.absorb (c.h.loop.step e)).Books :=
  hb.absorb (fun _ => hb.marked.timer.step_member he) (Or.inr hi.localDescription) hi.unapplied fun hu => unanswered_idles hu hi

/-- A pending future stays so through a step only if nothing settles it, and the session keeps its state. -/
private theorem Books.pending {c : HttpClient F} (hb : c.Books) {e : SessionEvent Unit} (he : SessionLoop.Uncalled e)
    (hi : SessionLoop.Idles c.h.loop (c.h.loop.step e)) {state : SessionState}
    (hs : c.h.conn.connected = .pending → c.h.loop.session.state = state)
    (hp : (c.absorb (c.h.loop.step e)).h.conn.connected = .pending) : (c.absorb (c.h.loop.step e)).h.loop.session.state = state := by
  obtain ⟨hpending, _, _⟩ := HttpConnection.absorb_connected c.h fun _ => hb.marked.timer.step_member he
  obtain ⟨hbefore, hquiet⟩ := hpending hp
  exact (hi.state hquiet).trans (hs hbefore)

/-- A step in which no coroutine goes on leaves the call where it is. -/
private theorem Kept.idles {c : HttpClient F} (hk : c.Kept) {e : SessionEvent Unit} (he : SessionLoop.Uncalled e)
    (hi : SessionLoop.Idles c.h.loop (c.h.loop.step e)) : (c.absorb (c.h.loop.step e)).Kept := by
  refine ⟨hk.toBooks.idles he hi, ?_⟩
  have hstage := hk.stage
  have hpending : ∀ state, (c.h.conn.connected = .pending → c.h.loop.session.state = state) →
      (c.absorb (c.h.loop.step e)).h.conn.connected = .pending → (c.absorb (c.h.loop.step e)).h.loop.session.state = state :=
    fun _ => hk.toBooks.pending he hi
  have hclosed : c.h.loop.tasks = [] → c.h.loop.session.state = .closed → (c.h.loop.step e).loop.session.state = .closed :=
    fun ht hs => (c.h.loop.closed_step e hs (SessionLoop.timely_finished ht e)).1
  have hlocal : ∀ offer, c.Own offer → (c.absorb (c.h.loop.step e)).Own offer := by
    intro offer ⟨hl, hsigns⟩
    refine ⟨?_, ?_⟩
    · show (c.h.loop.step e).loop.session.pc.localDescription.isSome = true
      rw [hi.localDescription]
      exact hl
    · show HttpServer.Signs c.identitySigner (c.h.loop.step e).loop.session.pc.localSdp offer
      rw [localSdp_eq hi.localDescription (c.h.loop.step_relayOnly e)]
      exact hsigns
  show (c.absorb (c.h.loop.step e)).AtStage c.stage
  cases hs : c.stage with
  | offering =>
    rw [hs] at hstage
    obtain ⟨⟨a, ht⟩, hu, hposts, hreplies⟩ := hstage
    exact ⟨⟨a, hi.tasks.trans ht⟩, unanswered_idles hu hi, hposts, hreplies⟩
  | checking offer =>
    rw [hs] at hstage
    obtain ⟨ht, hu, hposts, hreplies, hown, hstate⟩ := hstage
    exact ⟨hi.tasks.trans ht, unanswered_idles hu hi, hposts, hreplies, hlocal offer hown, hpending _ hstate⟩
  | posting offer =>
    rw [hs] at hstage
    obtain ⟨ht, hu, hposts, hreplies, hstate⟩ := hstage
    exact ⟨hi.tasks.trans ht, unanswered_idles hu hi, hposts, hreplies, hpending _ hstate⟩
  | deciding answer identity =>
    rw [hs] at hstage
    obtain ⟨ht, hu, hverified, hverifies, hstate⟩ := hstage
    exact ⟨hi.tasks.trans ht, unanswered_idles hu hi, hverified, hverifies, hpending _ hstate⟩
  | accepting =>
    rw [hs] at hstage
    obtain ⟨⟨answer, a, ht⟩, hu, hstate⟩ := hstage
    exact ⟨⟨answer, a, hi.tasks.trans ht⟩, by rw [← filter_step hi.unapplied] at hu; exact hu, hpending _ hstate⟩
  | connecting =>
    rw [hs] at hstage
    obtain ⟨ht, hstate⟩ := hstage
    exact ⟨hi.tasks.trans ht, hpending _ hstate⟩
  | aborting why =>
    rw [hs] at hstage
    obtain ⟨ht, hstate⟩ := hstage
    exact ⟨hi.tasks.trans ht, hclosed ht hstate⟩
  | raised why =>
    rw [hs] at hstage
    obtain ⟨ht, hstate⟩ := hstage
    exact ⟨hi.tasks.trans ht, hclosed ht hstate⟩
  | returned =>
    rw [hs] at hstage
    obtain ⟨ht, hconnected⟩ := hstage
    obtain ⟨_, _, hdone⟩ := HttpConnection.absorb_connected c.h (e := e) fun _ => hk.marked.timer.step_member he
    exact ⟨hi.tasks.trans ht, (hdone (by rw [hconnected]; exact nofun)).trans hconnected⟩

/-! ### Failing -/

omit [Cryptography] in
private theorem aclose_idles (l : SessionLoop Unit) (error : SessionError) : SessionLoop.Idles l (l.step (.aclose (.member error))) :=
  l.step_idles (SessionLoop.uncalled_aclose error) fun _ _ h => nomatch h

/-- The `except` branch is entered once no coroutine of the session is left, and closes it. -/
private theorem Books.fail {c : HttpClient F} (hb : c.Books) (ht : c.h.loop.tasks = []) (why : ConnectError) : (c.fail why).Kept := by
  have hi := aclose_idles c.h.loop .genericFailure
  have hbooks := hb.idles (SessionLoop.uncalled_aclose _) hi
  refine ⟨⟨hbooks.marked, hbooks.resolves, hbooks.posted, hbooks.replied, hbooks.applied⟩, hi.tasks.trans ht, ?_⟩
  exact c.h.loop.aclose_closes (.member .genericFailure)

/-! ### The request -/

omit [Aiortc] in
private theorem kept_post {c : HttpClient F} (hb : c.Books) (ht : c.h.loop.tasks = []) (hu : Unanswered c.h.loop)
    (hposts : c.posts = []) (hreplies : c.replies = []) {offer : Str} (hown : c.Own offer)
    (hs : c.h.conn.connected = .pending → c.h.loop.session.state = .offerSent) : (c.post offer).Kept := by
  have hone : (c.post offer).posts = [offer] := by rw [post, hposts]; rfl
  refine ⟨⟨hb.marked, hb.resolves, Or.inr ⟨offer, hone, hown⟩, ?_, Or.inl hu⟩, ht, hu, hone, hreplies, hs⟩
  show c.replies.length ≤ _
  rw [hreplies]
  exact Nat.zero_le _

omit [Aiortc] in
private theorem kept_request {c : HttpClient F} (hb : c.Books) (ht : c.h.loop.tasks = []) (hu : Unanswered c.h.loop)
    (hposts : c.posts = []) (hreplies : c.replies = []) {offer : Str} (hown : c.Own offer)
    (hs : c.h.conn.connected = .pending → c.h.loop.session.state = .offerSent) : (c.request offer).Kept := by
  unfold request
  split
  · exact ⟨⟨hb.marked, hb.resolves, hb.posted, hb.replied, hb.applied⟩, ht, hu, hposts, hreplies, hown, hs⟩
  · exact kept_post hb ht hu hposts hreplies hown hs

private theorem kept_checked {c : HttpClient F} (hk : c.Kept) {offer : Str} (hs : c.stage = .checking offer) (reply : HttpReply) :
    (c.checked offer reply).Kept := by
  have hstage := hk.stage
  rw [hs] at hstage
  obtain ⟨ht, hu, hposts, hreplies, hown, hstate⟩ := hstage
  unfold checked
  split
  · exact kept_post hk.toBooks ht hu hposts hreplies hown hstate
  · exact hk.toBooks.fail ht _

private theorem kept_offered {c : HttpClient F} (hb : c.Books) (ht : c.h.loop.tasks = []) (hu : Unanswered c.h.loop)
    (hposts : c.posts = []) (hreplies : c.replies = []) (hs : c.h.loop.session.state = .offerSent)
    (hl : c.h.loop.session.pc.localDescription.isSome = true) (clock : F) (nonces : Nat × Nat) :
    (c.offered clock nonces c.h.loop.session.pc.localSdp).Kept := by
  unfold offered
  split
  · next hsigner =>
    refine kept_request hb ht hu hposts hreplies ⟨hl, ?_⟩ fun _ => hs
    simp only [HttpServer.Signs, hsigner]
  · next signer hsigner =>
    split
    · next offer hoffer =>
      refine kept_request hb ht hu hposts hreplies ⟨hl, ?_⟩ fun _ => hs
      simp only [HttpServer.Signs, hsigner]
      exact ⟨clock, nonces, hoffer⟩
    · exact hb.fail ht _

/-! ### The answer -/

omit [Cryptography] in
/-- The session that awaits an answer takes it; any other ignores it. -/
private theorem step_accept (l : SessionLoop Unit) (answer : Text) :
    l.session.state = .offerSent ∧
      l.step (.call (.acceptAnswer answer) ()) = l.segment ⟨{ l.session with state := .negotiating }.armTimeout .negotiationTimeoutWaitingForAccept,
        [.armed (.member .negotiationTimeoutWaitingForAccept), .setRemoteAnswer answer],
        .suspended (.applying .acceptAnswer answer .setRemoteDescription)⟩ () ∨
    l.session.state ≠ .offerSent ∧ l.step (.call (.acceptAnswer answer) ()) = l.segment ⟨l.session, [], .returned none⟩ () := by
  by_cases hs : l.session.state = .offerSent
  · exact Or.inl ⟨hs, by rw [SessionLoop.step, Session.call, Session.acceptAnswer, Session.applyAnswer_eq _ _ _ hs]⟩
  · exact Or.inr ⟨hs, by rw [SessionLoop.step, Session.call, Session.acceptAnswer, Session.applyAnswer, if_pos hs]⟩

private theorem kept_accept {c : HttpClient F} (hb : c.Books) (ht : c.h.loop.tasks = []) (hu : Unanswered c.h.loop)
    (hs : c.h.conn.connected = .pending → c.h.loop.session.state = .offerSent) {answer : Text} (hg : c.Granted answer) :
    (c.accept answer).Kept := by
  have hlocal : (c.h.loop.step (.call (.acceptAnswer answer) ())).loop.session.pc = c.h.loop.session.pc := by
    rcases step_accept c.h.loop answer with ⟨_, heq⟩ | ⟨_, heq⟩
    · rw [heq, SessionLoop.segment_session, Session.armTimeout_pc]
    · rw [heq, SessionLoop.segment_session]
  have hquiet : ∀ f ∈ (c.h.loop.step (.call (.acceptAnswer answer) ())).effects, f.isSettling = false := by
    intro f hf
    rcases step_accept c.h.loop answer with ⟨_, heq⟩ | ⟨_, heq⟩
    · rw [heq, SessionLoop.segment_effects] at hf
      simp only [List.mem_cons, List.not_mem_nil, or_false] at hf
      rcases hf with rfl | rfl <;> rfl
    · rw [heq, SessionLoop.segment_effects] at hf
      cases hf
  have hcode : ∀ error, .onClose error ∈ (c.h.loop.step (.call (.acceptAnswer answer) ())).effects → error.IsMember :=
    fun error hmem => nomatch hquiet _ hmem
  have hposted : (c.accept answer).posts = [] ∨ ∃ offer, (c.accept answer).posts = [offer] ∧ (c.accept answer).Own offer := by
    rcases hb.posted with hnone | ⟨offer, hone, hown, hsigns⟩
    · exact Or.inl hnone
    · refine Or.inr ⟨offer, hone, ?_, ?_⟩
      · show (c.h.loop.step (.call (.acceptAnswer answer) ())).loop.session.pc.localDescription.isSome = true
        rw [hlocal]
        exact hown
      · show HttpServer.Signs c.identitySigner (c.h.loop.step (.call (.acceptAnswer answer) ())).loop.session.pc.localSdp offer
        rw [hlocal]
        exact hsigns
  obtain ⟨hpending, _, _⟩ := HttpConnection.absorb_connected c.h hcode
  have hmarked := HttpConnection.marked_step hb.marked hcode
  have hresolves := HttpConnection.resolves_step hb.resolves hcode
  have htrace := c.h.loop.step_trace (.call (.acceptAnswer answer) ())
  rcases step_accept c.h.loop answer with ⟨hstate, heq⟩ | ⟨hstate, heq⟩
  · have hstage : (c.accept answer).stage = .accepting := by rw [accept, heq]; rfl
    have hone : (c.h.loop.step (.call (.acceptAnswer answer) ())).loop.trace.filter Effect.isApplied = [.setRemoteAnswer answer] := by
      rw [htrace, List.filter_append, hu.unapplied, heq, SessionLoop.segment_effects]
      rfl
    refine ⟨⟨hmarked, hresolves, hposted, hb.replied, Or.inr ⟨answer, hone, hg⟩⟩, ?_⟩
    · rw [hstage]
      refine ⟨⟨answer, .setRemoteDescription, ?_⟩, ?_, fun _ => ?_⟩
      · show (c.h.loop.step (.call (.acceptAnswer answer) ())).loop.tasks = _
        rw [heq, SessionLoop.segment_tasks, ht]
        rfl
      · show (c.h.loop.step (.call (.acceptAnswer answer) ())).loop.trace.filter Effect.isApplied ≠ []
        rw [hone]
        exact List.cons_ne_nil _ _
      · show (c.h.loop.step (.call (.acceptAnswer answer) ())).loop.session.state = _
        rw [heq, SessionLoop.segment_session, Session.armTimeout_state]
  · have hstage : (c.accept answer).stage = .connecting := by rw [accept, heq]; rfl
    refine ⟨⟨hmarked, hresolves, hposted, hb.replied, Or.inl ?_⟩, ?_⟩
    · refine unanswered_step hu (by rw [hlocal]) (fun f hf => ?_) fun hopen => nomatch hquiet _ hopen
      rw [heq, SessionLoop.segment_effects] at hf
      cases hf
    · rw [hstage]
      refine ⟨?_, fun hp => absurd (hs (hpending hp).1) hstate⟩
      show (c.h.loop.step (.call (.acceptAnswer answer) ())).loop.tasks = _
      rw [heq, SessionLoop.segment_tasks, ht]

private theorem kept_approve {c : HttpClient F} (hb : c.Books) (ht : c.h.loop.tasks = []) (hu : Unanswered c.h.loop)
    (hs : c.h.conn.connected = .pending → c.h.loop.session.state = .offerSent) {answer : Text} {identity : ServerIdentity F}
    (hverifies : c.verifies = true) (hv : c.Verified answer identity) (validation : Validation) :
    (c.approve answer identity validation).Kept := by
  cases validation with
  | accepts =>
    -- no answer is applied yet: nothing else depends on what was approved
    have hbooks : Books { c with approved := c.approved ++ [identity] } :=
      ⟨hb.marked, hb.resolves, hb.posted, hb.replied, Or.inl hu⟩
    refine kept_accept hbooks ht hu hs ?_
    rw [Granted, if_pos hverifies]
    exact ⟨identity, List.mem_append_right _ List.mem_cons_self, hv⟩
  | raises => exact hb.fail ht _
  | awaits => exact ⟨⟨hb.marked, hb.resolves, hb.posted, hb.replied, hb.applied⟩, ht, hu, hv, hverifies, hs⟩

private theorem kept_answered {c : HttpClient F} (hk : c.Kept) {offer : Str} (hstage : c.stage = .posting offer) (reply : HttpReply)
    (clock : F) (validation : Validation) : (c.answered reply clock validation).Kept := by
  have hkept := hk.stage
  rw [hstage] at hkept
  obtain ⟨ht, hu, hposts, hreplies, hs⟩ := hkept
  have hb := hk.toBooks
  have hbooks : Books { c with replies := c.replies ++ [(clock, reply)] } := by
    refine ⟨hb.marked, hb.resolves, hb.posted, ?_, Or.inl hu⟩
    show (c.replies ++ [(clock, reply)]).length ≤ c.posts.length
    rw [hreplies, hposts]
    exact Nat.le_refl _
  have hposted : c.posts ≠ [] := by rw [hposts]; exact List.cons_ne_nil _ _
  have hmem : (clock, reply) ∈ c.replies ++ [(clock, reply)] := List.mem_append_right _ List.mem_cons_self
  unfold answered
  simp only
  cases hanswer : answerOf reply with
  | error e => exact hbooks.fail ht _
  | ok body =>
    by_cases hverifies : c.verifies = true
    · simp only [if_pos hverifies]
      cases hidentity : verifyServerIdentity clock (Sdp.codes body) with
      | error e => exact hbooks.fail ht _
      | ok checked =>
        obtain ⟨stripped, identity⟩ := checked
        exact kept_approve hbooks ht hu hs hverifies ⟨hposted, clock, reply, body, stripped, hmem, hanswer, hidentity, rfl⟩ validation
    · simp only [if_neg hverifies]
      refine kept_accept hbooks ht hu hs ?_
      rw [Granted, if_neg hverifies]
      exact ⟨hposted, clock, reply, body, hmem, hanswer, rfl⟩

/-! ### The events -/

private theorem kept_offering {c : HttpClient F} (hk : c.Kept) (hstage : c.stage = .offering) {e : SessionEvent Unit}
    (he : SessionLoop.Uncalled e) (clock : F) (nonces : Nat × Nat) : (c.sessionNext e clock nonces).Kept := by
  have hkept := hk.stage
  rw [hstage] at hkept
  obtain ⟨⟨a, ht⟩, hu, hposts, hreplies⟩ := hkept
  have hstay : (c.absorb (c.h.loop.step e)).stage = .offering := hstage
  have hcode : ∀ error, .onClose error ∈ (c.h.loop.step e).effects → error.IsMember := fun _ => hk.marked.timer.step_member he
  unfold sessionNext
  simp only
  unfold goOn
  rw [hstay]
  cases c.h.loop.step_offers he ht with
  | idles hi =>
    rw [hi.outcome]
    exact hk.idles he hi
  | waits a' ht' ho hs hf =>
    have hunanswered := unanswered_step hu (by rw [hs]) (fun f hmem => by rw [hf] at hmem; cases hmem) (by rw [hf]; exact List.not_mem_nil)
    rw [ho]
    refine ⟨hk.toBooks.absorb hcode (Or.inl hposts) (fun f hmem => by rw [hf] at hmem; cases hmem) fun _ => hunanswered, ?_⟩
    rw [hstay]
    exact ⟨⟨a', ht'⟩, hunanswered, hposts, hreplies⟩
  | raised ht' ho hs hf =>
    have hunanswered := unanswered_step hu (by rw [hs]) (fun f hmem => by rw [hf] at hmem; cases hmem) (by rw [hf]; exact List.not_mem_nil)
    have hbooks := hk.toBooks.absorb hcode (Or.inl hposts) (fun f hmem => by rw [hf] at hmem; cases hmem) fun _ => hunanswered
    rw [ho]
    exact hbooks.fail ht' _
  | returned sdp error ht' ho hl hr hs hf =>
    have hunanswered := unanswered_step hu hr (fun f hmem => by rw [hf] at hmem; cases List.mem_singleton.mp hmem; rfl)
      (by rw [hf]; exact fun hopen => nomatch List.mem_singleton.mp hopen)
    have hbooks := hk.toBooks.absorb hcode (Or.inl hposts) (fun f hmem => by rw [hf] at hmem; cases List.mem_singleton.mp hmem; rfl)
      fun _ => hunanswered
    rw [ho]
    exact kept_offered hbooks ht' hunanswered hposts hreplies hs (by rw [absorb, HttpConnection.absorb, hl]; rfl) clock nonces

private theorem kept_accepting {c : HttpClient F} (hk : c.Kept) (hstage : c.stage = .accepting) {e : SessionEvent Unit}
    (he : SessionLoop.Uncalled e) (clock : F) (nonces : Nat × Nat) : (c.sessionNext e clock nonces).Kept := by
  have hkept := hk.stage
  rw [hstage] at hkept
  obtain ⟨⟨answer, a, ht⟩, happlied, hstate⟩ := hkept
  have hstay : (c.absorb (c.h.loop.step e)).stage = .accepting := hstage
  have hcode : ∀ error, .onClose error ∈ (c.h.loop.step e).effects → error.IsMember := fun _ => hk.marked.timer.step_member he
  unfold sessionNext
  simp only
  unfold goOn
  rw [hstay]
  cases c.h.loop.step_applies he ht with
  | idles hi =>
    rw [hi.outcome]
    exact hk.idles he hi
  | goes hl hs hf hends =>
    have hbooks := hk.toBooks.absorb hcode (Or.inr hl) (fun f hmem => (hf f hmem).1) fun hu => absurd hu.unapplied happlied
    have hpending : (c.absorb (c.h.loop.step e)).h.conn.connected = .pending →
        (c.absorb (c.h.loop.step e)).h.loop.session.state = .negotiating := by
      intro hp
      obtain ⟨hpending, _, _⟩ := HttpConnection.absorb_connected c.h hcode
      exact hs.trans (hstate (hpending hp).1)
    rcases hends with ⟨a', ht', ho⟩ | ⟨ht', ho | ho⟩
    · rw [ho]
      refine ⟨hbooks, ?_⟩
      rw [hstay]
      refine ⟨⟨answer, a', ht'⟩, ?_, hpending⟩
      show (c.h.loop.step e).loop.trace.filter Effect.isApplied ≠ []
      rw [filter_step fun f hmem => (hf f hmem).1]
      exact happlied
    · rw [ho]
      exact hbooks.fail ht' _
    · rw [ho]
      exact ⟨⟨hbooks.marked, hbooks.resolves, hbooks.posted, hbooks.replied, hbooks.applied⟩, ht', hpending⟩

private theorem goOn_none (c : HttpClient F) (clock : F) (nonces : Nat × Nat) : c.goOn .none clock nonces = c := by
  unfold goOn
  cases c.stage <;> rfl

private theorem kept_session {c : HttpClient F} (hk : c.Kept) {e : SessionEvent Unit} (he : SessionLoop.Uncalled e) (clock : F)
    (nonces : Nat × Nat) : (c.sessionNext e clock nonces).Kept := by
  have finished : c.h.loop.tasks = [] → (c.sessionNext e clock nonces).Kept := by
    intro ht
    have hi := c.h.loop.step_idles he fun index reply _ => by rw [ht]; rfl
    unfold sessionNext
    simp only
    rw [hi.outcome, goOn_none]
    exact hk.idles he hi
  have hkept := hk.stage
  cases hs : c.stage with
  | offering => exact kept_offering hk hs he clock nonces
  | accepting => exact kept_accepting hk hs he clock nonces
  | checking offer => rw [hs] at hkept; exact finished hkept.1
  | posting offer => rw [hs] at hkept; exact finished hkept.1
  | deciding answer identity => rw [hs] at hkept; exact finished hkept.1
  | connecting => rw [hs] at hkept; exact finished hkept.1
  | aborting why => rw [hs] at hkept; exact finished hkept.1
  | raised why => rw [hs] at hkept; exact finished hkept.1
  | returned => rw [hs] at hkept; exact finished hkept.1

omit [Aiortc] in
/-- The application's coroutines do not reopen a connection, nor do they resolve its future. -/
private theorem Books.conn {c : HttpClient F} (hb : c.Books) {conn : Connection} (hclosed : conn.closed = c.h.conn.closed)
    (hpending : conn.connected = .pending → c.h.conn.connected = .pending)
    (hconnected : conn.connected = .connected → c.h.conn.connected = .connected) : Books { c with h := { c.h with conn := conn } } := by
  refine ⟨⟨hb.marked.timer, ?_, fun hs => ?_⟩, ⟨fun hp => hb.resolves.pending (hpending hp), fun hc => hb.resolves.connected (hconnected hc)⟩,
    hb.posted, hb.replied, hb.applied⟩
  · rw [hclosed]
    exact hb.marked.marked
  · rw [hclosed]
    exact hb.marked.closed hs

private theorem Books.abandon {c : HttpClient F} (hb : c.Books) (ht : c.h.loop.tasks = []) (why : ConnectError) : (c.abandon why).Kept := by
  have hbooks : Books { c with h := { c.h with conn := c.h.conn.abandon } } := by
    apply hb.conn
    · exact (c.h.conn.next_kept .abandon).closed
    · unfold Connection.abandon
      split
      · exact nofun
      · exact id
    · unfold Connection.abandon
      split
      · exact nofun
      · exact id
  exact hbooks.fail ht why

private theorem kept_woken {c : HttpClient F} (hk : c.Kept) (hs : c.stage = .connecting) : c.woken.Kept := by
  have hstage := hk.stage
  rw [hs] at hstage
  have hb := hk.toBooks
  unfold woken
  cases hc : c.h.conn.connected with
  | pending => exact hk
  | connected => exact ⟨⟨hb.marked, hb.resolves, hb.posted, hb.replied, hb.applied⟩, hstage.1, hc⟩
  | failed e => exact hb.fail hstage.1 _
  | cancelled => exact hb.fail hstage.1 _

/-- The coroutine that is suspended raises what is thrown into it, and is gone. -/
private theorem kept_interrupted {c : HttpClient F} (hk : c.Kept) (hs : c.stage = .offering ∨ c.stage = .accepting) :
    ((c.absorb (c.h.loop.step (.resume 0 .raised))).fail .cancelled).Kept := by
  have hone : ∃ t, c.h.loop.tasks = [t] := by
    have hstage := hk.stage
    rcases hs with hs | hs
    · rw [hs] at hstage
      obtain ⟨⟨a, ht⟩, _⟩ := hstage
      exact ⟨_, ht⟩
    · rw [hs] at hstage
      obtain ⟨⟨answer, a, ht⟩, _⟩ := hstage
      exact ⟨_, ht⟩
  obtain ⟨t, ht⟩ := hone
  have hstep : (c.h.loop.step (.resume 0 .raised)).loop.tasks = [] ∧ (c.h.loop.step (.resume 0 .raised)).loop.session = c.h.loop.session ∧
      (c.h.loop.step (.resume 0 .raised)).effects = [] := by
    have hwent := Session.resume_went c.h.loop.session t.coroutine .raised
    simp only [SessionLoop.step, ht, List.getElem?_cons_zero]
    generalize c.h.loop.session.resume t.coroutine .raised = seg at hwent
    generalize t.coroutine = coroutine at hwent
    cases hwent with
    | raises _ => exact ⟨rfl, rfl, rfl⟩
  obtain ⟨htasks, hsession, heffects⟩ := hstep
  have hnone : ∀ f ∈ (c.h.loop.step (.resume 0 .raised)).effects, f.isApplied = false := fun f hf => by rw [heffects] at hf; cases hf
  have hbooks := hk.toBooks.absorb (fun error hmem => by rw [heffects] at hmem; cases hmem) (Or.inr (by rw [hsession])) hnone fun hu =>
    unanswered_step hu (by rw [hsession]) hnone (by rw [heffects]; exact List.not_mem_nil)
  exact hbooks.fail htasks _

private theorem kept_cancel {c : HttpClient F} (hk : c.Kept) : c.cancel.Kept := by
  have hstage := hk.stage
  have hb := hk.toBooks
  unfold cancel
  cases hs : c.stage with
  | offering => exact kept_interrupted hk (Or.inl hs)
  | accepting => exact kept_interrupted hk (Or.inr hs)
  | checking offer => rw [hs] at hstage; exact hb.fail hstage.1 _
  | posting offer => rw [hs] at hstage; exact hb.fail hstage.1 _
  | deciding answer identity => rw [hs] at hstage; exact hb.fail hstage.1 _
  | connecting => rw [hs] at hstage; exact hb.abandon hstage.1 _
  | aborting why =>
    rw [hs] at hstage
    exact ⟨⟨hb.marked, hb.resolves, hb.posted, hb.replied, hb.applied⟩, hstage⟩
  | raised why => exact hk
  | returned => exact hk

/-- Every event keeps the books. -/
theorem kept_next {c : HttpClient F} (hk : c.Kept) (e : HttpClientEvent F) : (c.next e).Kept := by
  have hstage := hk.stage
  have hb := hk.toBooks
  cases e with
  | session e clock nonces =>
    cases e with
    | call _ _ => exact hk
    | close _ _ => exact hk
    | aclose _ => exact hk
    | _ =>
      apply kept_session hk
      trivial
  | capability reply =>
    simp only [next]
    split
    · next offer hs => exact kept_checked hk hs reply
    · exact hk
  | reply reply clock validation =>
    simp only [next]
    split
    · next offer hs => exact kept_answered hk hs reply clock validation
    · exact hk
  | decided accepted =>
    simp only [next]
    split
    · next answer identity hs =>
      rw [hs] at hstage
      obtain ⟨ht, hu, hverified, hverifies, hstate⟩ := hstage
      exact kept_approve hb ht hu hstate hverifies hverified _
    · exact hk
  | woken =>
    simp only [next]
    split
    · next hs => exact kept_woken hk hs
    · exact hk
  | timeout =>
    simp only [next]
    split
    · next hs =>
      rw [hs] at hstage
      exact hb.abandon hstage.1 _
    · exact hk
  | cancel => exact kept_cancel hk
  | tornDown =>
    simp only [next]
    split
    · next why hs =>
      rw [hs] at hstage
      exact ⟨⟨hb.marked, hb.resolves, hb.posted, hb.replied, hb.applied⟩, hstage⟩
    · exact hk
  | close error =>
    simp only [next]
    split
    · exact hk.idles (SessionLoop.uncalled_aclose error) (aclose_idles _ error)
    · exact hk
  | connection e =>
    simp only [next]
    split
    · next hs =>
      rw [hs] at hstage
      have hkept := c.h.conn.next_kept e
      have hconnected : (c.h.conn.next e).connected = c.h.conn.connected :=
        hkept.connected.resolve_right fun hp => by rw [hstage.2] at hp; cases hp
      refine ⟨hb.conn hkept.closed (fun hp => hconnected.symm.trans hp) fun hc => hconnected.symm.trans hc, ?_⟩
      show AtStage _ c.stage
      rw [hs]
      exact ⟨hstage.1, hconnected.trans hstage.2⟩
    · exact hk

theorem kept_new (connectionId : Nat) (localId : NetworkId) (relayOnly capabilityCheck verifies : Bool) (signer : Option (IdentitySigner F)) :
    (new connectionId localId relayOnly capabilityCheck verifies signer).Kept := by
  have hunopened : .onOpen ∉ (new connectionId localId relayOnly capabilityCheck verifies signer).h.loop.trace :=
    fun hopen => nomatch List.mem_singleton.mp hopen
  refine ⟨⟨⟨.unarmed rfl rfl rfl, ⟨nofun, ?_⟩, nofun⟩, ⟨fun _ => ?_, nofun⟩, Or.inl rfl, Nat.le_refl _, Or.inl ?_⟩, ?_⟩
  · rintro ⟨f, hf, hclose⟩
    obtain rfl := List.mem_singleton.mp hf
    cases hclose
  · intro f hf
    obtain rfl := List.mem_singleton.mp hf
    rfl
  · exact ⟨rfl, rfl, hunopened⟩
  · exact ⟨⟨.createOffer, rfl⟩, ⟨rfl, rfl, hunopened⟩, rfl, rfl⟩

/-! ### What grows -/

/-- What was posted stays, and `replies` alone came in. -/
structure Grows (c c' : HttpClient F) (replies : List (F × HttpReply)) : Prop where
  posts : c.posts <+: c'.posts
  replies : ∀ p ∈ c'.replies, p ∈ c.replies ∨ p ∈ replies

omit [Aiortc] in
private theorem grows_same {c c' : HttpClient F} (hp : c'.posts = c.posts) (hr : c'.replies = c.replies) : Grows c c' [] :=
  ⟨hp ▸ List.prefix_refl _, fun _ h => Or.inl (hr ▸ h)⟩

omit [Aiortc] in
private theorem grows_post (c : HttpClient F) (offer : Str) : Grows c (c.post offer) [] :=
  ⟨List.prefix_append _ _, fun _ h => Or.inl h⟩

omit [Aiortc] in
private theorem grows_request (c : HttpClient F) (offer : Str) : Grows c (c.request offer) [] := by
  unfold request
  split
  · exact grows_same rfl rfl
  · exact grows_post c offer

private theorem grows_offered (c : HttpClient F) (clock : F) (nonces : Nat × Nat) (sdp : Text) : Grows c (c.offered clock nonces sdp) [] := by
  unfold offered
  split
  · apply grows_request
  · split
    · apply grows_request
    · exact grows_same rfl rfl

private theorem grows_goOn (c : HttpClient F) (outcome : Outcome Unit) (clock : F) (nonces : Nat × Nat) :
    Grows c (c.goOn outcome clock nonces) [] := by
  unfold goOn
  split
  · apply grows_offered
  · exact grows_same rfl rfl
  · exact grows_same rfl rfl
  · exact grows_same rfl rfl
  · exact grows_same rfl rfl

private theorem grows_session (c : HttpClient F) (e : SessionEvent Unit) (clock : F) (nonces : Nat × Nat) :
    Grows c (c.sessionNext e clock nonces) [] := by
  have hgrows := grows_goOn (c.absorb (c.h.loop.step e)) (c.h.loop.step e).outcome clock nonces
  exact ⟨hgrows.posts, hgrows.replies⟩

private theorem grows_approve (c : HttpClient F) (answer : Text) (identity : ServerIdentity F) (validation : Validation) :
    Grows c (c.approve answer identity validation) [] := by
  cases validation <;> exact grows_same rfl rfl

private theorem grows_answered (c : HttpClient F) (reply : HttpReply) (clock : F) (validation : Validation) :
    Grows c (c.answered reply clock validation) [(clock, reply)] := by
  have came : ∀ c' : HttpClient F, c'.posts = c.posts → c'.replies = c.replies ++ [(clock, reply)] → Grows c c' [(clock, reply)] :=
    fun c' hp hr => ⟨hp ▸ List.prefix_refl _, fun _ h => List.mem_append.mp (hr ▸ h)⟩
  unfold answered
  simp only
  split
  · exact came _ rfl rfl
  · split
    · split
      · exact came _ rfl rfl
      · cases validation <;> exact came _ rfl rfl
    · exact came _ rfl rfl

/-- The reply that an event brings. -/
def brought : HttpClientEvent F → List (F × HttpReply)
  | .reply reply clock _ => [(clock, reply)]
  | _ => []

theorem grows_next (c : HttpClient F) (e : HttpClientEvent F) : Grows c (c.next e) (brought e) := by
  have same : Grows c c (brought e) := ⟨List.prefix_refl _, fun _ h => Or.inl h⟩
  cases e with
  | session e clock nonces =>
    cases e with
    | call _ _ => exact same
    | close _ _ => exact same
    | aclose _ => exact same
    | _ => exact grows_session c _ clock nonces
  | capability reply =>
    simp only [next]
    split
    · unfold checked
      split
      · exact grows_post c _
      · exact grows_same rfl rfl
    · exact same
  | reply reply clock validation =>
    simp only [next]
    split
    · exact grows_answered c reply clock validation
    · exact same
  | decided accepted =>
    simp only [next]
    split
    · exact grows_approve c _ _ _
    · exact same
  | woken =>
    simp only [next]
    split
    · unfold woken
      split <;> exact grows_same rfl rfl
    · exact same
  | timeout =>
    simp only [next]
    split
    · exact grows_same rfl rfl
    · exact same
  | cancel =>
    simp only [next, cancel]
    split <;> exact grows_same rfl rfl
  | tornDown =>
    simp only [next]
    split
    · exact grows_same rfl rfl
    · exact same
  | close error =>
    simp only [next]
    split
    · exact grows_same rfl rfl
    · exact same
  | connection e =>
    simp only [next]
    split
    · exact grows_same rfl rfl
    · exact same

/-! ### How a call ends -/

/-- What is left of the session, by the place where the call is: while it waits for the connection
the timer is armed, or the future is done; before it raises, the session is closed and its
connection too; and it returns a connection that has opened, on the answer that was applied. -/
def Accounted (c : HttpClient F) : Prop :=
  match c.stage with
  | .offering | .accepting => ∃ t, c.h.loop.tasks = [t]
  | .checking _ | .posting _ | .deciding _ _ => c.h.loop.tasks = [] ∧ c.h.loop.trace.filter Effect.isApplied = []
  | .connecting => c.h.loop.tasks = [] ∧ (c.h.conn.connected = .pending →
      c.h.loop.session.scheduled.map Prod.snd = [.member .negotiationTimeoutWaitingForAccept])
  | .aborting _ | .raised _ =>
    c.h.loop.tasks = [] ∧ c.h.loop.session.state = .closed ∧ c.h.conn.closed = true ∧ c.h.conn.connected ≠ .pending
  | .returned => c.h.loop.tasks = [] ∧ c.h.conn.connected = .connected ∧ c.h.loop.trace.filter Effect.isApplied ≠ []

omit [Aiortc] in
private theorem Kept.accounted {c : HttpClient F} (hk : c.Kept) : c.Accounted := by
  have hstage := hk.stage
  have hclosed : c.h.loop.session.state = .closed → c.h.conn.closed = true ∧ c.h.conn.connected ≠ .pending := by
    intro hs
    have hc := hk.marked.closed hs
    refine ⟨hc, fun hp => ?_⟩
    obtain ⟨f, hf, hclose⟩ := hk.marked.marked.mp hc
    have hquiet := hk.resolves.pending hp f hf
    cases f with
    | onClose error => cases hquiet
    | _ => cases hclose
  unfold Accounted
  cases hs : c.stage with
  | offering =>
    rw [hs] at hstage
    obtain ⟨⟨a, ht⟩, _⟩ := hstage
    exact ⟨_, ht⟩
  | accepting =>
    rw [hs] at hstage
    obtain ⟨⟨answer, a, ht⟩, _⟩ := hstage
    exact ⟨_, ht⟩
  | checking offer => rw [hs] at hstage; exact ⟨hstage.1, hstage.2.1.unapplied⟩
  | posting offer => rw [hs] at hstage; exact ⟨hstage.1, hstage.2.1.unapplied⟩
  | deciding answer identity => rw [hs] at hstage; exact ⟨hstage.1, hstage.2.1.unapplied⟩
  | connecting =>
    rw [hs] at hstage
    refine ⟨hstage.1, fun hp => ?_⟩
    rw [hk.marked.timer.errors, hstage.2 hp]
    rfl
  | aborting why => rw [hs] at hstage; exact ⟨hstage.1, hstage.2, hclosed hstage.2⟩
  | raised why => rw [hs] at hstage; exact ⟨hstage.1, hstage.2, hclosed hstage.2⟩
  | returned =>
    rw [hs] at hstage
    refine ⟨hstage.1, hstage.2, ?_⟩
    rcases hk.applied with hnone | ⟨answer, hone, _⟩
    · exact absurd (hk.resolves.connected hstage.2) hnone.unopened
    · rw [hone]
      exact List.cons_ne_nil _ _

end Client
end HttpClient
end NetherNet
