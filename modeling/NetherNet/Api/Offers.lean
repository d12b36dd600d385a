import NetherNet.Api.HttpServer
import NetherNet.Identity.Binding
import NetherNet.Session.Serving
import NetherNet.Session.Waiting

/-! What `_answer_offer` leaves behind, however it ends: the server's map holds the open
connections and no others, and a call that raised has none. -/
namespace NetherNet
open Library Identity

/-! ### One connection -/

namespace HttpConnection

/-- The connection of a session with its callbacks: it is closed once `on_close` was called, and
then only if the session is. -/
structure Marked (h : HttpConnection) : Prop where
  timer : SessionLoop.TimerKept h.loop.session
  marked : h.conn.closed = true ↔ ∃ f ∈ h.loop.trace, f.isClose = true
  closed : h.loop.session.state = .closed → h.conn.closed = true

private theorem markClosed_closed (c : Connection) {error : ErrorCode} (h : error.IsMember) :
    (c.markClosed error).1.closed = true ∧ (c.markClosed error).1.connectionId = c.connectionId := by
  obtain ⟨m, rfl⟩ := h
  rcases c.markClosed_cases (.member m) with ⟨future, _, heq⟩ | ⟨e, hf, _⟩
  · rw [heq]
    exact ⟨rfl, rfl⟩
  · cases hc : c.connected with
    | pending =>
      rw [hc] at hf
      cases hf
    | connected =>
      rw [hc] at hf
      cases hf
    | cancelled =>
      rw [hc] at hf
      cases hf
    | failed e =>
      rw [hc] at hf
      cases hf

private theorem callback_frame (c : Connection) (f : Effect) (h : ∀ error, f = .onClose error → error.IsMember) :
    ((callback c f).closed = true ↔ c.closed = true ∨ f.isClose = true) ∧ (callback c f).connectionId = c.connectionId := by
  cases f with
  | onClose error =>
    obtain ⟨hclosed, hid⟩ := markClosed_closed c (h error rfl)
    exact ⟨⟨fun _ => Or.inr rfl, fun _ => hclosed⟩, hid⟩
  | onOpen =>
    simp only [callback, Connection.markConnected]
    split <;> simp [Effect.isClose]
  | onPacket data => simp [callback, Connection.enqueue, Effect.isClose]
  | _ => simp [callback, Effect.isClose]

private theorem foldl_callback (c : Connection) (effects : List Effect) (h : ∀ error, .onClose error ∈ effects → error.IsMember) :
    ((effects.foldl callback c).closed = true ↔ c.closed = true ∨ ∃ f ∈ effects, f.isClose = true) ∧
      (effects.foldl callback c).connectionId = c.connectionId := by
  induction effects generalizing c with
  | nil => simp
  | cons f effects ih =>
    obtain ⟨hclosed, hid⟩ := callback_frame c f fun error he => h error (he ▸ List.mem_cons_self)
    obtain ⟨ihclosed, ihid⟩ := ih (callback c f) fun error he => h error (List.mem_cons_of_mem _ he)
    refine ⟨?_, ihid.trans hid⟩
    simp only [List.foldl_cons, ihclosed, hclosed, List.mem_cons, exists_eq_or_imp, or_assoc]

variable [Aiortc]

/-- The connection after a step: its id stays, and it is closed if `on_close` is called now. -/
theorem absorb_conn (h : HttpConnection) {e : SessionEvent Unit}
    (hcode : ∀ error, .onClose error ∈ (h.loop.step e).effects → error.IsMember) :
    ((h.absorb (h.loop.step e)).conn.closed = true ↔ h.conn.closed = true ∨ ∃ f ∈ (h.loop.step e).effects, f.isClose = true) ∧
      (h.absorb (h.loop.step e)).conn.connectionId = h.conn.connectionId :=
  foldl_callback h.conn _ hcode

theorem marked_step {h : HttpConnection} (hm : h.Marked) {e : SessionEvent Unit}
    (hcode : ∀ error, .onClose error ∈ (h.loop.step e).effects → error.IsMember) : (h.absorb (h.loop.step e)).Marked := by
  obtain ⟨hclosed, _⟩ := absorb_conn h hcode
  refine ⟨h.loop.timerKept_step e hm.timer, ?_, ?_⟩
  · rw [hclosed, hm.marked]
    simp only [absorb, SessionLoop.step_trace, List.mem_append, or_and_right, exists_or]
  · intro hs
    rw [hclosed]
    rcases (h.loop.step_move e).closing with ⟨_, hopen⟩ | ⟨_, _, notice, error, heq, _⟩
    · exact Or.inl (hm.closed (Classical.byContradiction fun hn => hopen hn hs))
    · exact Or.inr ⟨.onClose error, by simp [heq], rfl⟩

/-- Its session may still do something: it is not closed, or a coroutine of it is suspended. -/
def Alive (h : HttpConnection) : Prop := h.loop.session.state ≠ .closed ∨ h.loop.tasks ≠ []

end HttpConnection

/-! ### One call -/

namespace HttpServer
section Server
variable [Cryptography] {F : Type} [Runtime F]

/-- What is returned of an answer: it is signed, where there is a signer. -/
def Signs (signer : Option (IdentitySigner F)) (sdp : Text) (answer : Str) : Prop :=
  match signer with
  | none => answer = Sdp.codes sdp
  | some signer => ∃ clock nonces, signer.sign clock nonces (Sdp.codes sdp) = .ok answer

/-- What holds of the session of a call, as far as the call has come. -/
def AtStage (signer : Option (IdentitySigner F)) (l : SessionLoop Unit) : Stage → Prop
  | .answering => (∃ offer a, l.tasks = [⟨.answering .answer offer a, ()⟩]) ∧ l.session.pc.localDescription = none ∧
      .onOpen ∉ l.trace ∧ ∀ f ∈ l.trace, f.isAnswered = false
  | .closing | .raised => l.tasks = [] ∧ l.session.state = .closed ∧ .onOpen ∉ l.trace
  | .returned answer => l.tasks = [] ∧ ∃ offer sdp, l.trace.filter Effect.isAnswered = [.answered offer sdp] ∧ Signs signer sdp answer

structure Sound (signer : Option (IdentitySigner F)) (stage : Stage) (h : HttpConnection) : Prop extends h.Marked where
  stage : AtStage signer h.loop stage

variable [Aiortc]

/-- Once its session has no coroutine left, a call stays as it is. -/
theorem sound_finished {signer : Option (IdentitySigner F)} {stage : Stage} {h : HttpConnection} (hs : Sound signer stage h)
    (hfinished : h.loop.tasks = []) {e : SessionEvent Unit} (he : SessionLoop.Uncalled e) :
    (h.loop.step e).outcome = .none ∧ Sound signer stage (h.absorb (h.loop.step e)) := by
  obtain ⟨htasks, houtcome, hanswered⟩ := h.loop.step_finished he hfinished
  have hmarked := HttpConnection.marked_step hs.toMarked fun error => hs.timer.step_member he
  have closed : h.loop.session.state = .closed → .onOpen ∉ h.loop.trace →
      (h.loop.step e).loop.session.state = .closed ∧ .onOpen ∉ (h.loop.step e).loop.trace := by
    intro hstate hopen
    obtain ⟨hstate', hquiet⟩ := h.loop.closed_step e hstate (SessionLoop.timely_finished hfinished e)
    refine ⟨hstate', ?_⟩
    rw [SessionLoop.step_trace, List.mem_append, not_or]
    exact ⟨hopen, SessionLoop.quiet_unopened hquiet⟩
  refine ⟨houtcome, hmarked, ?_⟩
  have hstage := hs.stage
  cases stage with
  | answering =>
    obtain ⟨⟨offer, a, hone⟩, _⟩ := hstage
    rw [hfinished] at hone
    cases hone
  | closing => exact ⟨htasks, closed hstage.2.1 hstage.2.2⟩
  | raised => exact ⟨htasks, closed hstage.2.1 hstage.2.2⟩
  | returned answer =>
    obtain ⟨_, offer, sdp, hfilter, hsigns⟩ := hstage
    refine ⟨htasks, offer, sdp, ?_, hsigns⟩
    have hnone : (h.loop.step e).effects.filter Effect.isAnswered = [] :=
      List.filter_eq_nil_iff.mpr fun f hf => by simp [hanswered f hf]
    simp only [HttpConnection.absorb, SessionLoop.step_trace, List.filter_append, hnone, List.append_nil, hfilter]

/-- A step of a session that answers: it goes on, raises, or returns its answer. -/
theorem sound_answering {signer : Option (IdentitySigner F)} {h : HttpConnection} (hs : Sound signer .answering h)
    {e : SessionEvent Unit} (he : SessionLoop.Uncalled e) :
    ((h.loop.step e).outcome = .none ∧ Sound signer .answering (h.absorb (h.loop.step e))) ∨
    ((h.loop.step e).outcome = .raised () ∧ (h.loop.step e).effects = [] ∧ (h.loop.step e).loop.tasks = []) ∨
    ∃ sdp, (h.loop.step e).outcome = .returned () (some sdp) ∧
      ∀ answer, Signs signer sdp answer → Sound signer (.returned answer) (h.absorb (h.loop.step e)) := by
  obtain ⟨⟨offer, a, hone⟩, hlocal, hopen, hanswered⟩ := hs.stage
  have hmarked := HttpConnection.marked_step hs.toMarked fun error => hs.timer.step_member he
  have htrace := h.loop.step_trace e
  cases h.loop.step_serves he hone with
  | waits a' ht ho hd hf =>
    refine Or.inl ⟨ho, hmarked, ⟨offer, a', ht⟩, hd.trans hlocal, ?_, ?_⟩
    · simp only [HttpConnection.absorb, htrace, List.mem_append, not_or]
      exact ⟨hopen, h.loop.step_unopened e hlocal⟩
    · intro f hmem
      simp only [HttpConnection.absorb, htrace] at hmem
      rcases List.mem_append.mp hmem with hmem | hmem
      · exact hanswered f hmem
      · exact hf f hmem
  | raised ht ho hf => exact Or.inr (Or.inl ⟨ho, hf, ht⟩)
  | returned sdp error ht ho hf =>
    refine Or.inr (Or.inr ⟨sdp, ho, fun answer hsigns => ⟨hmarked, ht, offer, sdp, ?_, hsigns⟩⟩)
    have hnone : h.loop.trace.filter Effect.isAnswered = [] :=
      List.filter_eq_nil_iff.mpr fun f hmem => by simp [hanswered f hmem]
    simp only [HttpConnection.absorb, htrace, hf, List.filter_append, hnone]
    rfl

/-! ### The server -/

/-- What holds in every state: each call is sound, the map holds the open connections, no two
living sessions share an id, and the handler runs for opened sessions alone. -/
structure Kept (s : HttpServer F) : Prop where
  sound : ∀ (call : Nat) (stage : Stage) (h : HttpConnection), s.calls[call]? = some (.serving stage h) → Sound s.identitySigner stage h
  conns : ∀ k call, s.conns.get? k = some call ↔
    ∃ stage h, s.calls[call]? = some (.serving stage h) ∧ h.conn.connectionId = k ∧ h.conn.closed = false
  unique : ∀ (call : Nat) (stage : Stage) (h : HttpConnection) (call' : Nat) (stage' : Stage) (h' : HttpConnection),
    s.calls[call]? = some (.serving stage h) → s.calls[call']? = some (.serving stage' h') → h.Alive → h'.Alive → h.conn.connectionId = h'.conn.connectionId → call = call'
  handled : ∀ call ∈ s.handled, ∃ stage h, s.calls[call]? = some (.serving stage h) ∧ .onOpen ∈ h.loop.trace

omit [Aiortc] in
theorem foldl_callback (effects : List Effect) (s : HttpServer F) (call connectionId : Nat) :
    let s' := effects.foldl (callback call connectionId) s
    s'.calls = s.calls ∧ s'.identitySigner = s.identitySigner ∧
      (∀ k, s'.conns.get? k = if k = connectionId ∧ effects.any Effect.isClose = true then none else s.conns.get? k) ∧
      ∀ q ∈ s'.handled, q ∈ s.handled ∨ q = call ∧ .onOpen ∈ effects := by
  induction effects generalizing s with
  | nil => exact ⟨rfl, rfl, fun k => by simp, fun q hq => Or.inl hq⟩
  | cons f effects ih =>
    obtain ⟨hcalls, hsigner, hconns, hhandled⟩ := ih (callback call connectionId s f)
    have hframe : (callback call connectionId s f).calls = s.calls ∧
        (callback call connectionId s f).identitySigner = s.identitySigner := by
      cases f <;> exact ⟨rfl, rfl⟩
    refine ⟨hcalls.trans hframe.1, hsigner.trans hframe.2, fun k => ?_, fun q hq => ?_⟩
    · rw [List.foldl_cons, hconns k]
      by_cases hk : k = connectionId
      · cases f <;> simp [callback, hk, Effect.isClose]
      · cases f <;> simp [callback, hk, Dict.get?_pop]
    · rcases hhandled q hq with hq | ⟨rfl, hopen⟩
      · cases f with
        | onOpen =>
          rcases List.mem_append.mp hq with hq | hq
          · exact Or.inl hq
          · exact Or.inr ⟨List.mem_singleton.mp hq, List.mem_cons_self⟩
        | _ => exact Or.inl hq
      · exact Or.inr ⟨rfl, List.mem_cons_of_mem _ hopen⟩

/-- The connection of one call has moved on, and everything else is as it was, but that a
connection that has closed leaves the map. -/
structure Moved (s s' : HttpServer F) (call : Nat) (h : HttpConnection) (stage : Stage) (h' : HttpConnection) : Prop where
  calls : s'.calls = s.calls.set call (.serving stage h')
  signer : s'.identitySigner = s.identitySigner
  handled : ∀ q ∈ s'.handled, q ∈ s.handled ∨ q = call ∧ .onOpen ∈ h'.loop.trace
  id : h'.conn.connectionId = h.conn.connectionId
  opened : .onOpen ∈ h.loop.trace → .onOpen ∈ h'.loop.trace
  alive : h'.Alive → h.Alive
  conns : (h'.conn.closed = h.conn.closed ∧ ∀ k, s'.conns.get? k = s.conns.get? k) ∨
    h.Alive ∧ h'.conn.closed = true ∧ ∀ k, s'.conns.get? k = if k = h.conn.connectionId then none else s.conns.get? k

omit [Aiortc] in
private theorem alive_of_open {signer : Option (IdentitySigner F)} {stage : Stage} {h : HttpConnection} (hs : Sound signer stage h)
    (hopen : h.conn.closed = false) : h.Alive := by
  refine Or.inl fun hstate => ?_
  rw [hs.closed hstate] at hopen
  cases hopen

omit [Aiortc] [Cryptography] in
private theorem serving_set {calls : List OfferCall} {call : Nat} (hlength : call < calls.length) (stage : Stage) (h : HttpConnection)
    (q : Nat) (stage₀ : Stage) (h₀ : HttpConnection) : (calls.set call (.serving stage h))[q]? = some (.serving stage₀ h₀) ↔
      q = call ∧ stage₀ = stage ∧ h₀ = h ∨ q ≠ call ∧ calls[q]? = some (.serving stage₀ h₀) := by
  rw [List.getElem?_set]
  by_cases hq : call = q
  · subst hq
    simp [hlength, eq_comm]
  · simp [hq, Ne.symm hq]

omit [Aiortc] in
theorem Kept.moved {s s' : HttpServer F} (hk : s.Kept) {call : Nat} {stage stage' : Stage} {h h' : HttpConnection}
    (hhere : s.calls[call]? = some (.serving stage h)) (hm : Moved s s' call h stage' h') (hs : Sound s.identitySigner stage' h') :
    s'.Kept := by
  have hlength : call < s.calls.length := (List.getElem?_eq_some_iff.mp hhere).1
  have hget : ∀ q stage₀ h₀, s'.calls[q]? = some (.serving stage₀ h₀) ↔
      q = call ∧ stage₀ = stage' ∧ h₀ = h' ∨ q ≠ call ∧ s.calls[q]? = some (.serving stage₀ h₀) := by
    rw [hm.calls]
    exact serving_set hlength stage' h'
  -- a living session of the same id is this one
  have hsame : ∀ q stage₀ h₀, h.Alive → s.calls[q]? = some (.serving stage₀ h₀) → h₀.conn.closed = false →
      h₀.conn.connectionId = h.conn.connectionId → q = call := fun q stage₀ h₀ halive hq hopen hid =>
    hk.unique _ _ _ _ _ _ hq hhere (alive_of_open (hk.sound _ _ _ hq) hopen) halive hid
  refine ⟨?_, ?_, ?_, ?_⟩
  · intro q stage₀ h₀ hq
    rw [hm.signer]
    rcases (hget _ _ _).mp hq with ⟨_, rfl, rfl⟩ | ⟨_, hq⟩
    · exact hs
    · exact hk.sound _ _ _ hq
  · intro k q
    have hold := hk.conns k q
    rcases hm.conns with ⟨hclosed, hconns⟩ | ⟨halive, hclosed, hconns⟩
    · rw [hconns k, hold]
      constructor
      · rintro ⟨stage₀, h₀, hq, hid, hopen⟩
        by_cases hqc : q = call
        · subst hqc
          cases Option.some.inj (hq.symm.trans hhere)
          exact ⟨stage', h', (hget _ _ _).mpr (Or.inl ⟨rfl, rfl, rfl⟩), hm.id.trans hid, hclosed.trans hopen⟩
        · exact ⟨stage₀, h₀, (hget _ _ _).mpr (Or.inr ⟨hqc, hq⟩), hid, hopen⟩
      · rintro ⟨stage₀, h₀, hq, hid, hopen⟩
        rcases (hget _ _ _).mp hq with ⟨rfl, rfl, rfl⟩ | ⟨_, hq⟩
        · exact ⟨stage, h, hhere, hm.id.symm.trans hid, hclosed.symm.trans hopen⟩
        · exact ⟨stage₀, h₀, hq, hid, hopen⟩
    · rw [hconns k]
      by_cases hkid : k = h.conn.connectionId
      · rw [if_pos hkid]
        constructor
        · intro hnone
          cases hnone
        · rintro ⟨stage₀, h₀, hq, hid, hopen⟩
          rcases (hget _ _ _).mp hq with ⟨_, _, rfl⟩ | ⟨hqc, hq⟩
          · rw [hclosed] at hopen
            cases hopen
          · exact absurd (hsame q stage₀ h₀ halive hq hopen (hid.trans hkid)) hqc
      · rw [if_neg hkid, hold]
        constructor
        · rintro ⟨stage₀, h₀, hq, hid, hopen⟩
          have hqc : q ≠ call := by
            rintro rfl
            cases Option.some.inj (hq.symm.trans hhere)
            exact hkid hid.symm
          exact ⟨stage₀, h₀, (hget _ _ _).mpr (Or.inr ⟨hqc, hq⟩), hid, hopen⟩
        · rintro ⟨stage₀, h₀, hq, hid, hopen⟩
          rcases (hget _ _ _).mp hq with ⟨_, _, rfl⟩ | ⟨_, hq⟩
          · exact absurd (hid.symm.trans hm.id) hkid
          · exact ⟨stage₀, h₀, hq, hid, hopen⟩
  · intro q₁ stage₁ h₁ q₂ stage₂ h₂ hq₁ hq₂ halive₁ halive₂ hid
    rcases (hget _ _ _).mp hq₁ with ⟨rfl, _, rfl⟩ | ⟨_, hq₁⟩
    · rcases (hget _ _ _).mp hq₂ with ⟨rfl, _, _⟩ | ⟨_, hq₂⟩
      · rfl
      · exact hk.unique _ _ _ _ _ _ hhere hq₂ (hm.alive halive₁) halive₂ (hm.id.symm.trans hid)
    · rcases (hget _ _ _).mp hq₂ with ⟨rfl, _, rfl⟩ | ⟨_, hq₂⟩
      · exact hk.unique _ _ _ _ _ _ hq₁ hhere halive₁ (hm.alive halive₂) (hid.trans hm.id)
      · exact hk.unique _ _ _ _ _ _ hq₁ hq₂ halive₁ halive₂ hid
  · intro q hq
    rcases hm.handled q hq with hq | ⟨rfl, hopen⟩
    · obtain ⟨stage₀, h₀, hq₀, hopen⟩ := hk.handled q hq
      by_cases hqc : q = call
      · subst hqc
        cases Option.some.inj (hq₀.symm.trans hhere)
        exact ⟨stage', h', (hget _ _ _).mpr (Or.inl ⟨rfl, rfl, rfl⟩), hm.opened hopen⟩
      · exact ⟨stage₀, h₀, (hget _ _ _).mpr (Or.inr ⟨hqc, hq₀⟩), hopen⟩
    · exact ⟨stage', h', (hget _ _ _).mpr (Or.inl ⟨rfl, rfl, rfl⟩), hopen⟩

/-- A step of one session, with its callbacks, is such a move. -/
theorem absorb_moved (s : HttpServer F) (call : Nat) (stage : Stage) {h : HttpConnection} (hm : h.Marked) {e : SessionEvent Unit}
    (he : SessionLoop.Uncalled e) (halive : (h.absorb (h.loop.step e)).Alive → h.Alive) :
    Moved s (s.absorb call stage h (h.loop.step e)) call h stage (h.absorb (h.loop.step e)) := by
  obtain ⟨hcalls, hsigner, hconns, hhandled⟩ := foldl_callback (h.loop.step e).effects
    (s.setCall call (.serving stage (h.absorb (h.loop.step e)))) call h.conn.connectionId
  obtain ⟨hclosed, hid⟩ := HttpConnection.absorb_conn h fun error => hm.timer.step_member he
  have htrace : (h.absorb (h.loop.step e)).loop.trace = h.loop.trace ++ (h.loop.step e).effects := h.loop.step_trace e
  refine ⟨hcalls, hsigner, ?_, hid, ?_, halive, ?_⟩
  · intro q hq
    rcases hhandled q hq with hq | ⟨rfl, hopen⟩
    · exact Or.inl hq
    · exact Or.inr ⟨rfl, by rw [htrace]; exact List.mem_append_right _ hopen⟩
  · intro hopen
    rw [htrace]
    exact List.mem_append_left _ hopen
  · by_cases hany : (h.loop.step e).effects.any Effect.isClose = true
    · refine Or.inr ⟨?_, ?_, fun k => ?_⟩
      · rcases (h.loop.step_move e).closing with ⟨hnone, _⟩ | ⟨hopen, _⟩
        · obtain ⟨f, hf, hfc⟩ := List.any_eq_true.mp hany
          rw [hnone f hf] at hfc
          cases hfc
        · exact Or.inl hopen
      · exact hclosed.mpr (Or.inr (List.any_eq_true.mp hany))
      · rw [absorb, hconns k]
        simp only [hany, and_true]
        rfl
    · refine Or.inl ⟨?_, fun k => ?_⟩
      · rw [Bool.eq_iff_iff, hclosed]
        exact ⟨fun hc => hc.resolve_right fun hf => hany (List.any_eq_true.mpr hf), Or.inl⟩
      · rw [absorb, hconns k, if_neg fun hk => hany hk.2]
        rfl

/-! ### The events -/

/-- No earlier session has the id, but one that is closed and whose `answer` has ended. -/
def Fresh (s : HttpServer F) (connectionId : Nat) : Prop :=
  ∀ (call : Nat) (stage : Stage) (h : HttpConnection), s.calls[call]? = some (.serving stage h) →
    h.conn.connectionId = connectionId → ¬ h.Alive

omit [Cryptography] in
/-- A session that is done with stays so. -/
private theorem step_alive {h : HttpConnection} {e : SessionEvent Unit} (he : SessionLoop.Uncalled e)
    (halive : (h.absorb (h.loop.step e)).Alive) : h.Alive := by
  by_cases hfinished : h.loop.tasks = []
  · refine Or.inl fun hstate => ?_
    obtain ⟨hclosed, _⟩ := h.loop.closed_step e hstate (SessionLoop.timely_finished hfinished e)
    obtain ⟨htasks, _⟩ := h.loop.step_finished he hfinished
    exact halive.elim (fun hs => hs hclosed) fun ht => ht htasks
  · exact Or.inr hfinished

/-- An `aclose` of a session suspends or ends no coroutine. -/
private theorem sound_aclose {signer : Option (IdentitySigner F)} {stage : Stage} {h : HttpConnection} (hs : Sound signer stage h)
    (error : SessionError) : Sound signer stage (h.absorb (h.loop.step (.aclose (.member error)))) := by
  by_cases hfinished : h.loop.tasks = []
  · exact (sound_finished hs hfinished (SessionLoop.uncalled_aclose error)).2
  · cases stage with
    | answering =>
      rcases sound_answering hs (SessionLoop.uncalled_aclose error) with ⟨_, hsound⟩ | ⟨houtcome, _⟩ | ⟨sdp, houtcome, _⟩
      · exact hsound
      · cases houtcome
      · cases houtcome
    | closing => exact absurd hs.stage.1 hfinished
    | raised => exact absurd hs.stage.1 hfinished
    | returned answer => exact absurd hs.stage.1 hfinished

theorem Kept.closeSession {s : HttpServer F} (hk : s.Kept) (call : Nat) (error : SessionError) : (s.closeSession call error).Kept := by
  unfold HttpServer.closeSession
  split
  · next stage h hhere =>
    have hs := hk.sound _ _ _ hhere
    exact hk.moved hhere (absorb_moved s call stage hs.toMarked (SessionLoop.uncalled_aclose error) (step_alive (SessionLoop.uncalled_aclose error)))
      (sound_aclose hs error)
  · exact hk

omit [Aiortc] in
private theorem Moved.elsewhere {s s' : HttpServer F} {call k : Nat} {stage : Stage} {h h' : HttpConnection}
    (hm : Moved s s' call h stage h') (hk : k ≠ h.conn.connectionId) : s'.conns.get? k = s.conns.get? k := by
  rcases hm.conns with ⟨_, hconns⟩ | ⟨_, _, hconns⟩
  · exact hconns k
  · rw [hconns k, if_neg hk]

omit [Aiortc] in
private theorem Moved.gone {s s' : HttpServer F} {call k : Nat} {stage : Stage} {h h' : HttpConnection}
    (hm : Moved s s' call h stage h') (hk : k = h.conn.connectionId) (hnone : s.conns.get? k = none) : s'.conns.get? k = none := by
  rcases hm.conns with ⟨_, hconns⟩ | ⟨_, _, hconns⟩
  · rw [hconns k, hnone]
  · rw [hconns k, if_pos hk]

omit [Aiortc] in
/-- The same move, after which the call has come further. -/
private theorem Moved.restage {s s' : HttpServer F} {call : Nat} {stage : Stage} {h h' : HttpConnection}
    (hm : Moved s s' call h stage h') (stage' : Stage) : Moved s (s'.setCall call (.serving stage' h')) call h stage' h' :=
  { hm with calls := by rw [setCall, hm.calls, List.set_set] }

private theorem raised_moved {s : HttpServer F} {call : Nat} {h : HttpConnection} (hs : Sound s.identitySigner .answering h)
    {e : SessionEvent Unit} (he : SessionLoop.Uncalled e) (heffects : (h.loop.step e).effects = [])
    (htasks : (h.loop.step e).loop.tasks = []) (clock : F) (nonces : Nat × Nat) :
    let h' := h.absorb (h.loop.step e)
    let h'' := h'.absorb (h'.loop.step (.aclose (.member .failedToCreateAnswer)))
    Moved s ((s.absorb call .answering h (h.loop.step e)).goOn call h' (.raised ()) clock nonces) call h .closing h'' ∧
      Sound s.identitySigner .closing h'' := by
  intro h' h''
  have halive : h.Alive := by
    obtain ⟨⟨offer, a, hone⟩, _⟩ := hs.stage
    exact Or.inr (by rw [hone]; exact List.cons_ne_nil _ _)
  have hmarked : h'.Marked := HttpConnection.marked_step hs.toMarked fun error => hs.timer.step_member he
  have hmarked' : h''.Marked := HttpConnection.marked_step hmarked fun error => hmarked.timer.step_member (SessionLoop.uncalled_aclose _)
  have hstate : h''.loop.session.state = .closed := h'.loop.aclose_closes _
  obtain ⟨htasks', _⟩ := h'.loop.step_finished (SessionLoop.uncalled_aclose .failedToCreateAnswer) htasks
  have hfirst := absorb_moved s call .answering hs.toMarked he fun _ => halive
  have hsecond := absorb_moved { s.absorb call .answering h (h.loop.step e) with
      conns := (s.absorb call .answering h (h.loop.step e)).conns.pop h'.conn.connectionId } call .closing hmarked
    (SessionLoop.uncalled_aclose .failedToCreateAnswer) (step_alive (SessionLoop.uncalled_aclose _))
  have htrace : h''.loop.trace = h'.loop.trace ++ (h'.loop.step (.aclose (.member .failedToCreateAnswer))).effects :=
    h'.loop.step_trace _
  have htrace' : h'.loop.trace = h.loop.trace := by
    have htrace'' := h.loop.step_trace e
    rw [heffects, List.append_nil] at htrace''
    exact htrace''
  have hopen : .onOpen ∉ h''.loop.trace := by
    rw [htrace, htrace', List.mem_append, not_or]
    obtain ⟨_, _, hopen, _⟩ := hs.stage
    refine ⟨hopen, ?_⟩
    simp only [SessionLoop.step, SessionLoop.ran, Session.aclose, Session.close]
    split
    · split <;> simp
    · simp
  refine ⟨⟨?_, ?_, ?_, ?_, ?_, fun _ => halive, Or.inr ⟨halive, hmarked'.closed hstate, ?_⟩⟩, hmarked', htasks', hstate, hopen⟩
  · rw [goOn, hsecond.calls]
    simp only [hfirst.calls, List.set_set]
    rfl
  · exact hsecond.signer.trans hfirst.signer
  · intro q hq
    rcases hsecond.handled q hq with hq | hq
    · rcases hfirst.handled q hq with hq | ⟨hqc, hq⟩
      · exact Or.inl hq
      · exact Or.inr ⟨hqc, hsecond.opened hq⟩
    · exact Or.inr hq
  · exact hsecond.id.trans hfirst.id
  · exact fun hq => hsecond.opened (hfirst.opened hq)
  · intro k
    by_cases hkid : k = h.conn.connectionId
    · rw [if_pos hkid]
      exact hsecond.gone (hkid.trans hfirst.id.symm) (by rw [hkid, ← hfirst.id]; exact Dict.get?_pop_self _ _)
    · rw [if_neg hkid, goOn, hsecond.elsewhere (hfirst.id ▸ hkid)]
      exact (Dict.get?_pop_ne _ (hfirst.id ▸ hkid)).trans (hfirst.elsewhere hkid)

omit [Aiortc] in
private theorem Kept.same {s s' : HttpServer F} (hk : s.Kept) (hsigner : s'.identitySigner = s.identitySigner)
    (hcalls : ∀ (q : Nat) (stage : Stage) (h : HttpConnection), s'.calls[q]? = some (.serving stage h) ↔ s.calls[q]? = some (.serving stage h))
    (hconns : ∀ k, s'.conns.get? k = s.conns.get? k) (hhandled : s'.handled = s.handled) : s'.Kept := by
  refine ⟨?_, ?_, ?_, ?_⟩
  · intro call stage h hhere
    rw [hsigner]
    exact hk.sound call stage h ((hcalls _ _ _).mp hhere)
  · intro k call
    rw [hconns, hk.conns]
    simp only [hcalls]
  · intro call stage h call' stage' h' hhere hthere
    exact hk.unique _ _ _ _ _ _ ((hcalls _ _ _).mp hhere) ((hcalls _ _ _).mp hthere)
  · intro call hcall
    rw [hhandled] at hcall
    simp only [hcalls]
    exact hk.handled call hcall

omit [Aiortc] in
/-- A call without a connection comes to something without a connection. -/
private theorem Kept.unserved {s : HttpServer F} (hk : s.Kept) {call : Nat} (hnot : ∀ stage h, s.calls[call]? ≠ some (.serving stage h))
    {c : OfferCall} (hc : ∀ stage h, c ≠ .serving stage h) : (s.setCall call c).Kept := by
  refine hk.same rfl (fun q stage h => ?_) (fun _ => rfl) rfl
  rw [setCall, List.getElem?_set]
  split
  · next heq =>
    subst heq
    split
    · exact ⟨fun hs => absurd (Option.some.inj hs) (hc stage h), fun hs => absurd hs (hnot stage h)⟩
    · exact ⟨fun hs => (by cases hs), fun hs => absurd hs (hnot stage h)⟩
  · exact Iff.rfl

/-- A connection is made, under an id that no living session has. -/
theorem Kept.serve {s : HttpServer F} (hk : s.Kept) {call : Nat} (hlength : call < s.calls.length)
    (hnot : ∀ stage h, s.calls[call]? ≠ some (.serving stage h)) (offer : IncomingOffer) {connectionId : Nat}
    (hf : s.Fresh connectionId) : (s.serve call offer connectionId).Kept := by
  let h : HttpConnection := { HttpConnection.new connectionId s.localId offer.networkId false s.relayOnly with
    loop := (HttpConnection.new connectionId s.localId offer.networkId false s.relayOnly).loop.next (.call (.answer offer.sdp) ()) }
  have hserve : s.serve call offer connectionId = { s with
      conns := s.conns.set connectionId call
      calls := s.calls.set call (.serving .answering h) } := rfl
  have hsound : Sound s.identitySigner .answering h := by
    refine ⟨⟨.unarmed rfl rfl rfl, ?_, ?_⟩, ⟨offer.sdp, .setRemoteDescription, rfl⟩, rfl, ?_, ?_⟩
    · constructor
      · intro hc
        cases hc
      · rintro ⟨f, hf, hc⟩
        cases List.mem_singleton.mp hf
        cases hc
    · intro hc
      cases hc
    · intro hm
      cases List.mem_singleton.mp hm
    · intro f hm
      obtain rfl := List.mem_singleton.mp hm
      rfl
  have hget := serving_set hlength .answering h
  rw [hserve]
  refine ⟨?_, ?_, ?_, ?_⟩
  · intro q stage₀ h₀ hq
    rcases (hget _ _ _).mp hq with ⟨_, rfl, rfl⟩ | ⟨_, hq⟩
    · exact hsound
    · exact hk.sound _ _ _ hq
  · intro k q
    simp only [Dict.get?_set, hget]
    by_cases hkid : k = connectionId
    · rw [if_pos hkid]
      constructor
      · intro hq
        exact ⟨.answering, h, Or.inl ⟨(Option.some.inj hq).symm, rfl, rfl⟩, hkid.symm, rfl⟩
      · rintro ⟨stage₀, h₀, ⟨rfl, _⟩ | ⟨_, hq⟩, hid, hopen⟩
        · rfl
        · exact absurd (alive_of_open (hk.sound _ _ _ hq) hopen) (hf q stage₀ h₀ hq (hid.trans hkid))
    · rw [if_neg hkid, hk.conns]
      constructor
      · rintro ⟨stage₀, h₀, hq, hid, hopen⟩
        exact ⟨stage₀, h₀, Or.inr ⟨fun hqc => hnot _ _ (hqc ▸ hq), hq⟩, hid, hopen⟩
      · rintro ⟨stage₀, h₀, ⟨_, _, rfl⟩ | ⟨_, hq⟩, hid, hopen⟩
        · exact absurd hid.symm hkid
        · exact ⟨stage₀, h₀, hq, hid, hopen⟩
  · intro q₁ stage₁ h₁ q₂ stage₂ h₂ hq₁ hq₂ halive₁ halive₂ hid
    rcases (hget _ _ _).mp hq₁ with ⟨rfl, _, rfl⟩ | ⟨_, hold₁⟩
    · rcases (hget _ _ _).mp hq₂ with ⟨rfl, _, _⟩ | ⟨_, hold₂⟩
      · rfl
      · exact absurd halive₂ (hf q₂ stage₂ h₂ hold₂ hid.symm)
    · rcases (hget _ _ _).mp hq₂ with ⟨rfl, _, rfl⟩ | ⟨_, hold₂⟩
      · exact absurd halive₁ (hf q₁ stage₁ h₁ hold₁ hid)
      · exact hk.unique _ _ _ _ _ _ hold₁ hold₂ halive₁ halive₂ hid
  · intro q hq
    obtain ⟨stage₀, h₀, hq₀, hopen⟩ := hk.handled q hq
    exact ⟨stage₀, h₀, (hget _ _ _).mpr (Or.inr ⟨fun hqc => hnot _ _ (hqc ▸ hq₀), hq₀⟩), hopen⟩

/-- Signing does not raise on an answer that is about to be returned. -/
def SignsAll (s : HttpServer F) (call : Nat) (e : SessionEvent Unit) (clock : F) (nonces : Nat × Nat) : Prop :=
  ∀ (stage : Stage) (h : HttpConnection) (answer : Text), s.calls[call]? = some (.serving stage h) →
    (h.loop.step e).outcome = .returned () (some answer) → ∀ signer, s.identitySigner = some signer →
      ∃ text, signer.sign clock nonces (Sdp.codes answer) = .ok text

theorem Kept.sessionNext {s : HttpServer F} (hk : s.Kept) (call : Nat) {e : SessionEvent Unit} (he : SessionLoop.Uncalled e)
    {clock : F} {nonces : Nat × Nat} (hsigns : s.SignsAll call e clock nonces) : (s.sessionNext call e clock nonces).Kept := by
  unfold HttpServer.sessionNext
  split
  · next stage h hhere =>
    show ((s.absorb call stage h (h.loop.step e)).goOn call (h.absorb (h.loop.step e)) (h.loop.step e).outcome clock nonces).Kept
    have hs := hk.sound _ _ _ hhere
    have hmoved := absorb_moved s call stage hs.toMarked he (step_alive he)
    have stays : (h.loop.step e).outcome = .none → Sound s.identitySigner stage (h.absorb (h.loop.step e)) →
        ((s.absorb call stage h (h.loop.step e)).goOn call (h.absorb (h.loop.step e)) (h.loop.step e).outcome clock nonces).Kept := by
      intro houtcome hsound
      rw [houtcome]
      exact hk.moved hhere hmoved hsound
    by_cases hfinished : h.loop.tasks = []
    · obtain ⟨houtcome, hsound⟩ := sound_finished hs hfinished he
      exact stays houtcome hsound
    · cases stage with
      | closing => exact absurd hs.stage.1 hfinished
      | raised => exact absurd hs.stage.1 hfinished
      | returned answer => exact absurd hs.stage.1 hfinished
      | answering =>
        rcases sound_answering hs he with ⟨houtcome, hsound⟩ | ⟨houtcome, heffects, htasks⟩ | ⟨sdp, houtcome, hreturned⟩
        · exact stays houtcome hsound
        · rw [houtcome]
          obtain ⟨hraised, hsound⟩ := raised_moved hs he heffects htasks clock nonces
          exact hk.moved hhere hraised hsound
        · rw [houtcome]
          have hsigned : ∃ answer, (s.absorb call .answering h (h.loop.step e)).signed clock nonces sdp = .returned answer ∧
              Signs s.identitySigner sdp answer := by
            unfold signed
            rw [hmoved.signer]
            cases hsigner : s.identitySigner with
            | none => exact ⟨_, rfl, rfl⟩
            | some signer =>
              obtain ⟨text, htext⟩ := hsigns .answering h sdp hhere houtcome signer hsigner
              exact ⟨text, by simp only [htext], clock, nonces, htext⟩
          obtain ⟨answer, heq, hsigns'⟩ := hsigned
          simp only [goOn, heq]
          exact hk.moved hhere (hmoved.restage _) (hreturned answer hsigns')
  · exact hk

/-- The condition on one event: a session is made under a fresh id, signing does not raise, and
when `aclose` clears the map it is empty already. -/
def Met (s : HttpServer F) : HttpServerEvent F → Prop
  | .post _ _ .accepts connectionId => s.Fresh connectionId
  | .validated _ true connectionId => s.Fresh connectionId
  | .session call e clock nonces => s.SignsAll call e clock nonces
  | .sessionTornDown => s.shutdown = .tearing [] → s.conns.entries = []
  | _ => True

private theorem Kept.acloseSessions {s : HttpServer F} (hk : s.Kept) (rest : List Nat) (hempty : rest = [] → s.conns.entries = []) :
    (s.acloseSessions rest).Kept := by
  cases rest with
  | nil =>
    refine hk.same rfl (fun _ _ _ => Iff.rfl) (fun k => ?_) rfl
    rw [Dict.get?, Dict.get?, hempty rfl]
    rfl
  | cons call rest =>
    exact (hk.closeSession call .none).same rfl (fun _ _ _ => Iff.rfl) (fun _ => rfl) rfl

private theorem Kept.validate {s : HttpServer F} (hk : s.Kept) {call : Nat} (hlength : call < s.calls.length)
    (hnot : ∀ stage h, s.calls[call]? ≠ some (.serving stage h)) (offer : IncomingOffer) {connectionId : Nat} (validation : Validation)
    (hf : validation = .accepts → s.Fresh connectionId) : (s.validate call offer connectionId validation).Kept := by
  cases validation with
  | accepts => exact hk.serve hlength hnot offer (hf rfl)
  | raises => exact hk.unserved hnot fun stage h hc => by cases hc
  | awaits => exact hk.unserved hnot fun stage h hc => by cases hc

omit [Aiortc] in
private theorem appended_serving {s : HttpServer F} (q : Nat) (stage : Stage) (h : HttpConnection) :
    (s.calls ++ [OfferCall.refused])[q]? = some (.serving stage h) ↔ s.calls[q]? = some (.serving stage h) := by
  constructor
  · intro hq
    rcases Nat.lt_trichotomy q s.calls.length with hlt | heq | hgt
    · rwa [List.getElem?_append_left hlt] at hq
    · rw [heq, List.getElem?_concat_length] at hq
      cases hq
    · rw [List.getElem?_eq_none (by simp only [List.length_append, List.length_singleton]; omega)] at hq
      cases hq
  · intro hq
    rwa [List.getElem?_append_left (List.getElem?_eq_some_iff.mp hq).1]

theorem kept_step (s : HttpServer F) (e : HttpServerEvent F) (hk : s.Kept) (hmet : s.Met e) : (s.next e).Kept := by
  cases e with
  | post networkIdText offer validation connectionId =>
    simp only [next, post]
    have hcalled : ({ s with calls := s.calls ++ [.refused] } : HttpServer F).Kept :=
      hk.same rfl appended_serving (fun _ => rfl) rfl
    split
    · exact hcalled
    · refine hcalled.validate (by simp) ?_ _ validation fun haccepts q stage h hq => ?_
      · intro stage h hq
        rw [List.getElem?_concat_length] at hq
        cases hq
      · rw [haccepts] at hmet
        exact hmet q stage h ((appended_serving q stage h).mp hq)
  | validated call accepted connectionId =>
    simp only [next]
    split
    · next offer hhere =>
      refine hk.validate (List.getElem?_eq_some_iff.mp hhere).1 ?_ offer _ ?_
      · intro stage h hq
        cases Option.some.inj (hhere.symm.trans hq)
      · cases accepted with
        | true => exact fun _ => hmet
        | false => exact fun h => by cases h
    · exact hk
  | session call e clock nonces =>
    cases e with
    | call c caller => exact hk
    | close error notifyRemote => exact hk
    | aclose error => exact hk
    | _ => exact hk.sessionNext call (by trivial) hmet
  | connection call e =>
    simp only [next]
    split
    · next stage h hhere =>
      have hs := hk.sound _ _ _ hhere
      have hnext := h.conn.next_kept e
      refine hk.moved hhere (?_ : Moved s _ call h stage { h with conn := h.conn.next e }) ?_
      · exact ⟨rfl, rfl, fun q hq => Or.inl hq, hnext.connectionId, id, id, Or.inl ⟨hnext.closed, fun _ => rfl⟩⟩
      · exact ⟨⟨hs.timer, by rw [hnext.closed]; exact hs.marked, by rw [hnext.closed]; exact hs.closed⟩, hs.stage⟩
    · exact hk
  | close call error => exact hk.closeSession call error
  | tornDown call =>
    simp only [next]
    split
    · next h hhere =>
      have hs := hk.sound _ _ _ hhere
      exact hk.moved hhere ⟨rfl, rfl, fun q hq => Or.inl hq, rfl, id, id, Or.inl ⟨rfl, fun _ => rfl⟩⟩ ⟨hs.toMarked, hs.stage⟩
    · exact hk
  | aclose =>
    simp only [next]
    split
    · exact hk.same rfl (fun _ _ _ => Iff.rfl) (fun _ => rfl) rfl
    · exact hk
  | signalingClosed =>
    simp only [next]
    split
    · exact hk.acloseSessions _ fun h => List.map_eq_nil_iff.mp h
    · exact hk
  | sessionTornDown =>
    simp only [next]
    split
    · next rest hrest => exact hk.acloseSessions rest fun h => hmet (h ▸ hrest)
    · exact hk

omit [Aiortc] in
theorem kept_new (localId : NetworkId) (signer : Option (IdentitySigner F)) (relayOnly : Bool) :
    (new localId signer relayOnly).Kept := by
  refine ⟨fun call stage h hq => ?_, fun k call => ⟨fun hq => ?_, fun ⟨stage, h, hq, _⟩ => ?_⟩, fun call stage h _ _ _ hq => ?_, fun call hq => ?_⟩
  all_goals cases hq

/-! ### What the calls leave -/

/-- The connection of a call stands under `k`, if the map is right: it has not been closed. -/
def Open (s : HttpServer F) (k call : Nat) : Prop :=
  ∃ (stage : Stage) (h : HttpConnection), s.calls[call]? = some (.serving stage h) ∧ h.conn.connectionId = k ∧
    ∀ f ∈ h.loop.trace, f.isClose = false

/-- The map is what it would be without a call: the open connections of the others, and the
handler was not started for it. -/
def Without (s : HttpServer F) (call : Nat) : Prop :=
  (∀ k q, s.conns.get? k = some q ↔ q ≠ call ∧ s.Open k q) ∧ call ∉ s.handled

/-- A call that raised has left nothing; one that returned has the one entry of the session
whose answer it returned, unless that session has been closed. -/
def Accounted (s : HttpServer F) (call : Nat) : OfferCall → Prop
  | .refused => s.Without call
  | .serving .raised h => s.Without call ∧ h.loop.session.state = .closed ∧ h.conn.closed = true
  | .serving (.returned answer) h =>
    (∃ offer sdp, h.loop.trace.filter Effect.isAnswered = [.answered offer sdp] ∧ Signs s.identitySigner sdp answer) ∧
      ((∃ f ∈ h.loop.trace, f.isClose = true) ∨ ∃! k, s.conns.get? k = some call)
  | _ => True

/-- The call that an event is about. -/
def caller (s : HttpServer F) : HttpServerEvent F → Option Nat
  | .post _ _ _ _ => some s.calls.length
  | .validated call _ _ | .session call _ _ _ | .connection call _ | .close call _ | .tornDown call => some call
  | .aclose | .signalingClosed | .sessionTornDown => none

omit [Aiortc] in
private theorem Kept.open_iff {s : HttpServer F} (hk : s.Kept) (k call : Nat) : s.conns.get? k = some call ↔ s.Open k call := by
  rw [hk.conns]
  refine exists_congr fun stage => exists_congr fun h => and_congr_right fun hq => and_congr_right fun _ => ?_
  rw [Bool.eq_false_iff, ne_eq, (hk.sound _ _ _ hq).marked]
  simp only [not_exists, not_and, Bool.not_eq_true]

omit [Aiortc] in
private theorem Kept.without {s : HttpServer F} (hk : s.Kept) {call : Nat} (hclosed : ∀ k, ¬ s.Open k call)
    (hunopened : ∀ stage h, s.calls[call]? = some (.serving stage h) → .onOpen ∉ h.loop.trace) : s.Without call := by
  refine ⟨fun k q => ?_, fun hhandled => ?_⟩
  · rw [hk.open_iff]
    exact ⟨fun hopen => ⟨fun hq => hclosed k (hq ▸ hopen), hopen⟩, fun h => h.2⟩
  · obtain ⟨stage, h, hq, hopen⟩ := hk.handled call hhandled
    exact hunopened stage h hq hopen

omit [Aiortc] in
theorem Kept.accounted {s : HttpServer F} (hk : s.Kept) (call : Nat) (c : OfferCall) (hhere : s.calls[call]? = some c) :
    s.Accounted call c := by
  cases c with
  | validating offer => trivial
  | refused =>
    refine hk.without (fun k => ?_) fun stage h hq => ?_
    · rintro ⟨stage, h, hq, _⟩
      cases Option.some.inj (hhere.symm.trans hq)
    · cases Option.some.inj (hhere.symm.trans hq)
  | serving stage h =>
    have hs := hk.sound _ _ _ hhere
    cases stage with
    | answering => trivial
    | closing => trivial
    | raised =>
      obtain ⟨_, hstate, hunopened⟩ := hs.stage
      have hclosed := hs.closed hstate
      refine ⟨hk.without (fun k => ?_) fun stage h₀ hq => ?_, hstate, hclosed⟩
      · rintro ⟨stage, h₀, hq, _, hopen⟩
        cases Option.some.inj (hhere.symm.trans hq)
        obtain ⟨f, hf, hfc⟩ := hs.marked.mp hclosed
        rw [hopen f hf] at hfc
        cases hfc
      · cases Option.some.inj (hhere.symm.trans hq)
        exact hunopened
    | returned answer =>
      obtain ⟨_, hanswer⟩ := hs.stage
      refine ⟨hanswer, ?_⟩
      by_cases hclosed : ∃ f ∈ h.loop.trace, f.isClose = true
      · exact Or.inl hclosed
      · have hopen : h.conn.closed = false := by
          rw [Bool.eq_false_iff, ne_eq, hs.marked]
          exact hclosed
        refine Or.inr ⟨h.conn.connectionId, (hk.conns _ _).mpr ⟨_, h, hhere, rfl, hopen⟩, fun k hkq => ?_⟩
        obtain ⟨stage, h₀, hq, hid, _⟩ := (hk.conns k call).mp hkq
        cases Option.some.inj (hhere.symm.trans hq)
        exact hid.symm

omit [Aiortc] in
private theorem absorb_elsewhere (s : HttpServer F) {call q : Nat} (hq : q ≠ call) (stage : Stage) (h : HttpConnection)
    (stepped : SessionStep Unit) : (s.absorb call stage h stepped).calls[q]? = s.calls[q]? := by
  rw [absorb, (foldl_callback _ _ _ _).1]
  exact List.getElem?_set_ne (Ne.symm hq)

private theorem validate_elsewhere (s : HttpServer F) {call q : Nat} (hq : q ≠ call) (offer : IncomingOffer) (connectionId : Nat)
    (validation : Validation) : (s.validate call offer connectionId validation).calls[q]? = s.calls[q]? := by
  cases validation with
  | accepts => exact absorb_elsewhere { s with conns := s.conns.set connectionId call } hq _ _ _
  | raises => exact List.getElem?_set_ne (Ne.symm hq)
  | awaits => exact List.getElem?_set_ne (Ne.symm hq)

private theorem sessionNext_elsewhere (s : HttpServer F) {call q : Nat} (hq : q ≠ call) (e : SessionEvent Unit) (clock : F)
    (nonces : Nat × Nat) : (s.sessionNext call e clock nonces).calls[q]? = s.calls[q]? := by
  unfold sessionNext
  split
  · next stage h hhere =>
    have hfirst := absorb_elsewhere s hq stage h (h.loop.step e)
    simp only [goOn]
    split
    · exact (List.getElem?_set_ne (Ne.symm hq)).trans hfirst
    · exact (absorb_elsewhere _ hq _ _ _).trans hfirst
    · exact hfirst
  · rfl

/-- An event of one call leaves the other calls, and so their connections, alone. -/
theorem next_elsewhere (s : HttpServer F) (e : HttpServerEvent F) {call q : Nat} (he : s.caller e = some call) (hq : q ≠ call) :
    (s.next e).calls[q]? = s.calls[q]? := by
  have updated : ∀ c, (s.setCall call c).calls[q]? = s.calls[q]? := fun c => List.getElem?_set_ne (Ne.symm hq)
  cases e with
  | post networkIdText offer validation connectionId =>
    obtain rfl := Option.some.inj he
    have happended : (s.calls ++ [OfferCall.refused])[q]? = s.calls[q]? := by
      rw [List.getElem?_append]
      split
      · rfl
      · next hlt =>
        rw [List.getElem?_eq_none (by simp only [List.length_singleton]; omega), List.getElem?_eq_none (by omega)]
    simp only [next, post]
    split
    · exact happended
    · exact (validate_elsewhere _ hq _ _ _).trans happended
  | validated call' accepted connectionId =>
    obtain rfl := Option.some.inj he
    simp only [next]
    split
    · exact validate_elsewhere s hq _ _ _
    · rfl
  | session call' e clock nonces =>
    obtain rfl := Option.some.inj he
    cases e with
    | call c caller => rfl
    | close error notifyRemote => rfl
    | aclose error => rfl
    | _ => exact sessionNext_elsewhere s hq _ clock nonces
  | connection call' e =>
    obtain rfl := Option.some.inj he
    simp only [next]
    split
    · exact updated _
    · rfl
  | close call' error =>
    obtain rfl := Option.some.inj he
    simp only [next, closeSession]
    split
    · exact absorb_elsewhere s hq _ _ _
    · rfl
  | tornDown call' =>
    obtain rfl := Option.some.inj he
    simp only [next]
    split
    · exact updated _
    · rfl
  | aclose => cases he
  | signalingClosed => cases he
  | sessionTornDown => cases he

/-- In every run of a server in which its connections are made under fresh ids, signing does
not raise, and `aclose` finds the map empty when it clears it: every call of `_answer_offer` that
raised has left nothing, every one that returned has its one entry, and no call has
touched another's connection. -/
theorem answer_offer_accounted (localId : NetworkId) (signer : Option (IdentitySigner F)) (relayOnly : Bool)
    (events : List (HttpServerEvent F)) (h : Machine.Along Met next (new localId signer relayOnly) events) :
    let s := Machine.run next (new localId signer relayOnly) events
    (∀ call c, s.calls[call]? = some c → s.Accounted call c) ∧
      ∀ e call q, s.caller e = some call → q ≠ call → (s.next e).calls[q]? = s.calls[q]? :=
  have hk := Machine.run_invariant kept_step (kept_new localId signer relayOnly) h
  ⟨hk.accounted, fun e _ _ he hq => next_elsewhere _ e he hq⟩

end Server

/-- The id of a call's session, if it has one. -/
def connectionId? : OfferCall → Option Nat
  | .serving _ h => some h.conn.connectionId
  | _ => none

/-- One offer is answered, another one's `create_answer` raises. -/
theorem answer_offer_accounted_two :
    letI := Sample.runtime
    letI := Sample.cryptography
    letI : Aiortc := ⟨fun _ => true⟩
    let goOn (call : Nat) (reply : Reply) : HttpServerEvent Int := .session call (.resume 0 reply) 0 (0, 0)
    let events := [.post "2".toList [] .accepts 7, goOn 0 (.ok []), .post "3".toList [] .awaits 8, .validated 1 true 8,
      goOn 1 .raised, goOn 0 (.ok []), .tornDown 1, goOn 0 (.ok [])]
    let s := Machine.run next (new (.p2p 1) none false) events
    (∀ call c, s.calls[call]? = some c → s.Accounted call c) ∧ s.conns.get? 7 = some 0 ∧ s.conns.get? 8 = none := by
  let _ := Sample.runtime
  let _ := Sample.cryptography
  let _ : Aiortc := ⟨fun _ => true⟩
  intro goOn events s
  refine ⟨(answer_offer_accounted (.p2p 1) none false events ?_).1, by decide +kernel, by decide +kernel⟩
  have unsigned : ∀ {s : HttpServer Int} {call : Nat} {e : SessionEvent Unit} {clock : Int} {nonces : Nat × Nat},
      s.identitySigner.isNone = true → s.SignsAll call e clock nonces := by
    intro s call e clock nonces hnone stage h answer _ _ signer hsigner
    rw [hsigner] at hnone
    cases hnone
  have fresh : ∀ {s : HttpServer Int} {connectionId : Nat},
      (s.calls.all fun c => connectionId? c ≠ some connectionId) = true → s.Fresh connectionId := by
    intro s connectionId hall q stage h hq hid
    have hne := List.all_eq_true.mp hall _ (List.mem_of_getElem? hq)
    exact absurd (congrArg some hid) (of_decide_eq_true hne)
  show _ ∧ _ ∧ _ ∧ _ ∧ _ ∧ _ ∧ _ ∧ _ ∧ True
  refine ⟨fresh ?_, unsigned ?_, trivial, fresh ?_, unsigned ?_, unsigned ?_, trivial, unsigned ?_, trivial⟩
  all_goals decide +kernel

/-- A signer whose token never expires, in the sense that its lifetime is infinite. -/
def endless :
    letI := Sample.runtime
    letI := Sample.cryptography
    IdentitySigner Int :=
  letI := Sample.runtime
  letI := Sample.cryptography
  { privateKey := ()
    domain := str "d"
    claims := Dict.empty
    tokenLifetime := some (.float (.infinity false))
    supported := ⟨_, rfl⟩ }

/-- The answer cannot be signed: the session stays open, and its connection in the map. -/
theorem unsigned_answer_stays :
    letI := Sample.runtime
    letI := Sample.cryptography
    letI : Aiortc := ⟨fun _ => true⟩
    let goOn : HttpServerEvent Int := .session 0 (.resume 0 (.ok [])) 1700000000 (0, 0)
    let s := Machine.run next (new (.p2p 1) (some endless) false) [.post "2".toList [] .accepts 7, goOn, goOn, goOn]
    (∃ h, s.calls[0]? = some (.serving .raised h) ∧ h.loop.session.state = .answerSent ∧ h.conn.closed = false) ∧
      s.conns.get? 7 = some 0 ∧ ¬ ∀ call c, s.calls[call]? = some c → s.Accounted call c := by
  let _ := Sample.runtime
  let _ := Sample.cryptography
  let _ : Aiortc := ⟨fun _ => true⟩
  refine ⟨⟨_, rfl, rfl, rfl⟩, rfl, fun h => ?_⟩
  obtain ⟨_, hstate, _⟩ := h 0 _ rfl
  cases hstate

end HttpServer
end NetherNet
