import NetherNet.Api.HttpHost
import NetherNet.Api.Offers

/-! The handlers of an `HttpServer` and its `aclose`: which connections they run for, and
what is left once the server is closed. -/
namespace NetherNet
open Library Identity

/-! ### One connection -/

/-- A session that has fired the opening of its channels does not open again. -/
theorem Session.Move.fires {late : Prop} {s s' : Session} {effects : List Effect} (h : Session.Move late s s' effects) :
    (s.pc.channelsOpenFired = true → s'.pc.channelsOpenFired = true) ∧
      (.onOpen ∉ effects ∨
        effects = [.onOpen] ∧ s.state ≠ .closed ∧ s.pc.channelsOpenFired = false ∧ s'.pc.channelsOpenFired = true) := by
  cases h with
  | quiet pc scheduled _ hq hf _ => exact ⟨hf, Or.inl (SessionLoop.quiet_unopened hq)⟩
  | opens pc _ hc hn hf => exact ⟨fun _ => by simpa using hf, Or.inr ⟨rfl, hc, hn, by simpa using hf⟩⟩
  | arms pc state error _ _ hi _ hf =>
    refine ⟨fun h => by simpa using hf.trans h, Or.inl fun hmem => ?_⟩
    exact (hi _ hmem).1 rfl
  | closes scheduled error notice _ _ hn =>
    refine ⟨fun h => by simpa using h, Or.inl fun hmem => ?_⟩
    rcases List.mem_append.mp hmem with hmem | hmem
    · exact (hn _ hmem).1 rfl
    · cases List.mem_singleton.mp hmem

/-- The call has ended: no coroutine of its session is left. -/
def Stage.isOver : Stage → Bool
  | .raised | .returned _ => true
  | .answering | .closing => false

def OfferCall.isOver : OfferCall → Bool
  | .validating _ => false
  | .refused => true
  | .serving stage _ => stage.isOver

namespace HttpServer
variable [Cryptography] {F : Type} [Runtime F]

theorem Sound.finished {signer : Option (IdentitySigner F)} {stage : Stage} {h : HttpConnection} (hs : Sound signer stage h)
    (hover : stage.isOver = true) : h.loop.tasks = [] := by
  have hstage := hs.stage
  cases stage with
  | answering => cases hover
  | closing => cases hover
  | raised => exact hstage.1
  | returned answer => exact hstage.1

variable [Aiortc]

/-! ### What a step leaves of a call that is over -/

omit [Aiortc] in
private theorem absorb_here {s : HttpServer F} {call : Nat} {c : OfferCall} (hc : s.calls[call]? = some c) (stage : Stage)
    (h : HttpConnection) (stepped : SessionStep Unit) :
    (s.absorb call stage h stepped).calls[call]? = some (.serving stage (h.absorb stepped)) := by
  rw [absorb, (foldl_callback _ _ _ _).1]
  exact List.getElem?_set_self (List.getElem?_eq_some_iff.mp hc).1

section Steps
variable {s : HttpServer F} {call : Nat} {c : OfferCall} {P : OfferCall → Prop} (hc : s.calls[call]? = some c) (hP : P c)
  (session : ∀ stage h ev, c = .serving stage h → SessionLoop.Uncalled ev → P (.serving stage (h.absorb (h.loop.step ev))))
include hc hP session

private theorem closeSession_over (q : Nat) (error : SessionError) : ∃ c', (s.closeSession q error).calls[call]? = some c' ∧ P c' := by
  by_cases hq : call = q
  · subst hq
    cases c with
    | serving stage h =>
      refine ⟨_, ?_, session stage h _ rfl (SessionLoop.uncalled_aclose error)⟩
      simp only [closeSession, hc]
      exact absorb_here hc stage h _
    | _ => exact ⟨_, by simp only [closeSession, hc], hP⟩
  · exact ⟨c, (next_elsewhere s (.close q error) rfl hq).trans hc, hP⟩

private theorem acloseSessions_over (rest : List Nat) : ∃ c', (s.acloseSessions rest).calls[call]? = some c' ∧ P c' := by
  cases rest with
  | nil => exact ⟨c, hc, hP⟩
  | cons q rest => exact closeSession_over hc hP session q .none

/-- The rule for what the events of its session and of its connection keep. -/
theorem over_next (hk : s.Kept) (hover : c.isOver = true)
    (connection : ∀ stage h ev, c = .serving stage h → P (.serving stage { h with conn := h.conn.next ev })) (e : HttpServerEvent F) :
    ∃ c', (s.next e).calls[call]? = some c' ∧ P c' := by
  have same : ∀ {s' : HttpServer F}, s'.calls[call]? = s.calls[call]? → ∃ c', s'.calls[call]? = some c' ∧ P c' :=
    fun hsame => ⟨c, hsame.trans hc, hP⟩
  by_cases hcaller : ∃ q, s.caller e = some q ∧ call ≠ q
  · obtain ⟨q, hq, hne⟩ := hcaller
    exact same (next_elsewhere s e hq hne)
  · have hcall : ∀ q, s.caller e = some q → call = q := fun q hq => Classical.byContradiction fun hne => hcaller ⟨q, hq, hne⟩
    cases e with
    | post networkIdText offer validation connectionId =>
      exact absurd (hcall _ rfl) (Nat.ne_of_lt (List.getElem?_eq_some_iff.mp hc).1)
    | validated q accepted connectionId =>
      obtain rfl := hcall _ rfl
      cases c with
      | validating offer => cases hover
      | _ => exact same (by simp only [next, hc])
    | session q ev clock nonces =>
      obtain rfl := hcall _ rfl
      have stepped : SessionLoop.Uncalled ev → ∃ c', (s.sessionNext call ev clock nonces).calls[call]? = some c' ∧ P c' := by
        intro hev
        cases c with
        | serving stage h =>
          obtain ⟨_, houtcome, _⟩ := h.loop.step_finished hev ((hk.sound _ _ _ hc).finished hover)
          refine ⟨_, ?_, session stage h ev rfl hev⟩
          simp only [sessionNext, hc, houtcome, goOn]
          exact absorb_here hc stage h _
        | _ => exact same (by simp only [sessionNext, hc])
      cases ev with
      | call _ caller => exact same rfl
      | close error notifyRemote => exact same rfl
      | aclose error => exact same rfl
      | _ => exact stepped trivial
    | connection q ev =>
      obtain rfl := hcall _ rfl
      cases c with
      | serving stage h =>
        refine ⟨_, ?_, connection stage h ev rfl⟩
        simp only [next, hc, setCall]
        exact List.getElem?_set_self (List.getElem?_eq_some_iff.mp hc).1
      | _ => exact same (by simp only [next, hc])
    | close q error => exact closeSession_over hc hP session q error
    | tornDown q =>
      obtain rfl := hcall _ rfl
      cases c with
      | serving stage h =>
        cases stage with
        | closing => cases hover
        | _ => exact same (by simp only [next, hc])
      | _ => exact same (by simp only [next, hc])
    | aclose =>
      refine same ?_
      simp only [next]
      split <;> rfl
    | signalingClosed =>
      simp only [next]
      split
      · exact acloseSessions_over hc hP session _
      · exact same rfl
    | sessionTornDown =>
      simp only [next]
      split
      · exact acloseSessions_over hc hP session _
      · exact same rfl

end Steps

/-- A call that is over stays at its stage. -/
theorem serving_next {s : HttpServer F} (hk : s.Kept) {call : Nat} {stage : Stage} {h : HttpConnection} {P : HttpConnection → Prop}
    (hc : s.calls[call]? = some (.serving stage h)) (hover : stage.isOver = true) (hP : P h)
    (session : ∀ ev, SessionLoop.Uncalled ev → P (h.absorb (h.loop.step ev))) (connection : ∀ ev, P { h with conn := h.conn.next ev })
    (e : HttpServerEvent F) : ∃ h', (s.next e).calls[call]? = some (.serving stage h') ∧ P h' := by
  obtain ⟨c', hc', h', rfl, hP'⟩ := over_next (P := fun c => ∃ h', c = .serving stage h' ∧ P h') hc ⟨h, rfl, hP⟩
    (fun stage₀ h₀ ev heq hev => by cases heq; exact ⟨_, rfl, session ev hev⟩) hk hover
    (fun stage₀ h₀ ev heq => by cases heq; exact ⟨_, rfl, connection ev⟩) e
  exact ⟨h', hc', hP'⟩

/-! ### Which calls are handled -/

omit [Aiortc] in
private theorem foldl_handled (effects : List Effect) (call k : Nat) (s : HttpServer F) (h : .onOpen ∉ effects) :
    (effects.foldl (callback call k) s).handled = s.handled := by
  induction effects generalizing s with
  | nil => rfl
  | cons f rest ih =>
    obtain ⟨hne, hrest⟩ := not_or.mp (mt List.mem_cons.mpr h)
    refine (ih (callback call k s f) hrest).trans ?_
    cases f with
    | onOpen => exact absurd rfl hne
    | _ => rfl

/-- The channels of the call's session have opened. -/
def Fired (s : HttpServer F) (call : Nat) : Prop :=
  ∃ stage h, s.calls[call]? = some (.serving stage h) ∧ h.loop.session.pc.channelsOpenFired = true

/-- The channels have not, and the session is not closed. -/
def Opens (s : HttpServer F) (call : Nat) : Prop :=
  ∃ stage h, s.calls[call]? = some (.serving stage h) ∧ h.loop.session.state ≠ .closed ∧ h.loop.session.pc.channelsOpenFired = false

omit [Aiortc] in
private theorem Opens.unfired {s : HttpServer F} {call : Nat} (h : s.Opens call) : ¬ s.Fired call := by
  rintro ⟨stage, h₀, hc, hfired⟩
  obtain ⟨_, _, hc', _, hbefore⟩ := h
  cases Option.some.inj (hc.symm.trans hc')
  rw [hbefore] at hfired
  cases hfired

/-- The handler is started for no call, or for the one whose channels open now. -/
def Hands (s s' : HttpServer F) : Prop :=
  s'.handled = s.handled ∨ ∃ call, s'.handled = s.handled ++ [call] ∧ s.Opens call ∧ s'.Fired call

private theorem absorb_hands {s : HttpServer F} {call : Nat} {stage : Stage} {h : HttpConnection}
    (hc : s.calls[call]? = some (.serving stage h)) (stage' : Stage) (ev : SessionEvent Unit) :
    Hands s (s.absorb call stage' h (h.loop.step ev)) := by
  rcases (h.loop.step_move ev).fires.2 with hnone | ⟨heffects, hopen, hbefore, hafter⟩
  · exact Or.inl (foldl_handled _ _ _ _ hnone)
  · refine Or.inr ⟨call, ?_, ⟨stage, h, hc, hopen, hbefore⟩, stage', _, absorb_here hc stage' h _, hafter⟩
    rw [absorb, heffects]
    rfl

omit [Cryptography] in
private theorem aclose_unopened {κ : Type} (l : SessionLoop κ) (error : ErrorCode) : .onOpen ∉ (l.step (.aclose error)).effects := by
  simp only [SessionLoop.step, SessionLoop.ran, Session.aclose, Session.close]
  split
  · split <;> simp
  · simp

private theorem closeSession_handled (s : HttpServer F) (call : Nat) (error : SessionError) :
    (s.closeSession call error).handled = s.handled := by
  unfold closeSession
  split
  · exact foldl_handled _ _ _ _ (aclose_unopened _ _)
  · rfl

private theorem acloseSessions_handled (s : HttpServer F) (rest : List Nat) : (s.acloseSessions rest).handled = s.handled := by
  cases rest with
  | nil => rfl
  | cons call rest => exact closeSession_handled s call .none

private theorem goOn_handled (s : HttpServer F) (call : Nat) (h : HttpConnection) (outcome : Outcome Unit) (clock : F)
    (nonces : Nat × Nat) : (s.goOn call h outcome clock nonces).handled = s.handled := by
  simp only [goOn]
  split
  · rfl
  · exact foldl_handled _ _ _ _ (aclose_unopened _ _)
  · rfl

private theorem goOn_fired {s : HttpServer F} {call : Nat} {stage : Stage} {h : HttpConnection}
    (hc : s.calls[call]? = some (.serving stage h)) (outcome : Outcome Unit) (clock : F) (nonces : Nat × Nat) {q : Nat}
    (hq : s.Fired q) : (s.goOn call h outcome clock nonces).Fired q := by
  obtain ⟨stage₀, h₀, hq, hfired⟩ := hq
  have restaged : ∀ {s' : HttpServer F} {stage' : Stage} {h' : HttpConnection}, s'.calls = s.calls.set call (.serving stage' h') →
      (h.loop.session.pc.channelsOpenFired = true → h'.loop.session.pc.channelsOpenFired = true) → s'.Fired q := by
    intro s' stage' h' hcalls honward
    by_cases heq : q = call
    · subst heq
      cases Option.some.inj (hc.symm.trans hq)
      refine ⟨stage', h', ?_, honward hfired⟩
      rw [hcalls]
      exact List.getElem?_set_self (List.getElem?_eq_some_iff.mp hc).1
    · refine ⟨stage₀, h₀, ?_, hfired⟩
      rw [hcalls, List.getElem?_set_ne (Ne.symm heq)]
      exact hq
  simp only [goOn]
  split
  · exact restaged rfl id
  · exact restaged (foldl_callback _ _ _ _).1 (SessionLoop.step_move _ _).fires.1
  · exact ⟨stage₀, h₀, hq, hfired⟩

omit [Aiortc] in
/-- What follows starts no handler, and leaves the channels open. -/
private theorem Hands.onward {s s' s'' : HttpServer F} (h : Hands s s') (hhandled : s''.handled = s'.handled)
    (hfired : ∀ call, s'.Fired call → s''.Fired call) : Hands s s'' := by
  rcases h with hsame | ⟨call, hnew, hbefore, hafter⟩
  · exact Or.inl (hhandled.trans hsame)
  · exact Or.inr ⟨call, hhandled.trans hnew, hbefore, hfired call hafter⟩

private theorem sessionNext_hands (s : HttpServer F) (call : Nat) (ev : SessionEvent Unit) (clock : F) (nonces : Nat × Nat) :
    Hands s (s.sessionNext call ev clock nonces) := by
  unfold sessionNext
  split
  · next stage h hc =>
    have hhere := absorb_here hc stage h (h.loop.step ev)
    exact (absorb_hands hc stage ev).onward (goOn_handled _ _ _ _ _ _) fun q => goOn_fired hhere _ clock nonces
  · exact Or.inl rfl

private theorem validate_handled (s : HttpServer F) (call : Nat) (offer : IncomingOffer) (k : Nat) (validation : Validation) :
    (s.validate call offer k validation).handled = s.handled := by
  cases validation <;> rfl

theorem next_hands (s : HttpServer F) (e : HttpServerEvent F) : Hands s (s.next e) := by
  cases e with
  | post networkIdText offer validation connectionId =>
    refine Or.inl ?_
    simp only [next, post]
    split
    · rfl
    · exact validate_handled _ _ _ _ _
  | validated call accepted connectionId =>
    refine Or.inl ?_
    simp only [next]
    split
    · exact validate_handled _ _ _ _ _
    · rfl
  | session call ev clock nonces =>
    cases ev with
    | call c caller => exact Or.inl rfl
    | close error notifyRemote => exact Or.inl rfl
    | aclose error => exact Or.inl rfl
    | _ => exact sessionNext_hands s call _ clock nonces
  | connection call ev =>
    refine Or.inl ?_
    simp only [next]
    split <;> rfl
  | close call error => exact Or.inl (closeSession_handled s call error)
  | tornDown call =>
    refine Or.inl ?_
    simp only [next]
    split <;> rfl
  | aclose =>
    refine Or.inl ?_
    simp only [next]
    split <;> rfl
  | signalingClosed =>
    refine Or.inl ?_
    simp only [next]
    split
    · exact acloseSessions_handled s _
    · rfl
  | sessionTornDown =>
    refine Or.inl ?_
    simp only [next]
    split
    · exact acloseSessions_handled s _
    · rfl

omit [Aiortc] in
/-- The call returned its answer: only then does a session open. -/
theorem Kept.handled_over {s : HttpServer F} (hk : s.Kept) {call : Nat} (hc : call ∈ s.handled) :
    ∃ stage h, s.calls[call]? = some (.serving stage h) ∧ stage.isOver = true := by
  obtain ⟨stage, h, hcall, hopen⟩ := hk.handled call hc
  refine ⟨stage, h, hcall, ?_⟩
  have hstage := (hk.sound _ _ _ hcall).stage
  cases stage with
  | answering => exact absurd hopen hstage.2.2.1
  | closing => exact absurd hopen hstage.2.2
  | raised => exact absurd hopen hstage.2.2
  | returned answer => rfl

/-- Each handler is started once, after the channels of its session have opened. -/
structure Once (s : HttpServer F) : Prop where
  nodup : s.handled.Nodup
  fired : ∀ call ∈ s.handled, s.Fired call

theorem once_next {s : HttpServer F} (hk : s.Kept) (h : s.Once) (e : HttpServerEvent F) : (s.next e).Once := by
  have hfired : ∀ call ∈ s.handled, (s.next e).Fired call := by
    intro call hcall
    obtain ⟨stage, h₀, hc, hover⟩ := hk.handled_over hcall
    obtain ⟨_, _, hc', hfired⟩ := h.fired call hcall
    cases Option.some.inj (hc.symm.trans hc')
    obtain ⟨h', hcall', hfired'⟩ := serving_next (P := fun h => h.loop.session.pc.channelsOpenFired = true) hk hc hover hfired
      (fun ev _ => (h₀.loop.step_move ev).fires.1 hfired) (fun _ => hfired) e
    exact ⟨stage, h', hcall', hfired'⟩
  rcases next_hands s e with hsame | ⟨call, hnew, hbefore, hafter⟩
  · exact ⟨hsame ▸ h.nodup, fun call hcall => hfired call (hsame ▸ hcall)⟩
  · refine ⟨?_, fun q hq => ?_⟩
    · rw [hnew, ← List.concat_eq_append]
      exact h.nodup.concat fun hmem => hbefore.unfired (h.fired call hmem)
    · rw [hnew] at hq
      rcases List.mem_append.mp hq with hold | hone
      · exact hfired q hold
      · rw [List.mem_singleton.mp hone]
        exact hafter

/-! ### Every connection there is -/

/-- No `create_answer` returns to a closed session. -/
def Timely (s : HttpServer F) : HttpServerEvent F → Prop
  | .session call ev _ _ => ∀ stage h, s.calls[call]? = some (.serving stage h) → h.loop.Timely ev
  | _ => True

/-- `_make_http_session`, and the first segment of `session.answer`. -/
def made (s : HttpServer F) (offer : IncomingOffer) (k : Nat) : HttpConnection :=
  let h := HttpConnection.new k s.localId offer.networkId false s.relayOnly
  h.absorb (h.loop.step (.call (.answer offer.sdp) ()))

private theorem absorb_opened {s : HttpServer F} {call : Nat} {stage : Stage} {h : HttpConnection} {ev : SessionEvent Unit}
    (hmem : .onOpen ∈ (h.loop.step ev).effects) : call ∈ (s.absorb call stage h (h.loop.step ev)).handled := by
  rcases (h.loop.step_move ev).fires.2 with hnone | ⟨heffects, _⟩
  · exact absurd hmem hnone
  · rw [absorb, heffects]
    exact List.mem_append_right _ (List.mem_singleton_self _)

section Rule
variable {P : Nat → HttpConnection → Prop}

omit [Aiortc] in
/-- One call has come to something else. -/
private theorem set_rule {s s' : HttpServer F} {call : Nat} {c : OfferCall} (hcalls : s'.calls = s.calls.set call c)
    (before : ∀ q stage h, s.calls[q]? = some (.serving stage h) → P q h) (here : ∀ stage h, c = .serving stage h → P call h) :
    ∀ q stage h, s'.calls[q]? = some (.serving stage h) → P q h := by
  intro q stage h hq
  rw [hcalls, List.getElem?_set] at hq
  split at hq
  · next heq =>
    subst heq
    split at hq
    · exact here stage h (Option.some.inj hq)
    · cases hq
  · exact before q stage h hq

private theorem validate_rule {s : HttpServer F} (before : ∀ q stage h, s.calls[q]? = some (.serving stage h) → P q h) (call : Nat)
    (offer : IncomingOffer) (k : Nat) (validation : Validation) (hmade : P call (s.made offer k)) :
    ∀ q stage h, (s.validate call offer k validation).calls[q]? = some (.serving stage h) → P q h := by
  cases validation with
  | accepts => exact set_rule rfl before fun stage h heq => by cases heq; exact hmade
  | raises => exact set_rule rfl before fun stage h heq => by cases heq
  | awaits => exact set_rule rfl before fun stage h heq => by cases heq

private theorem goOn_rule {s : HttpServer F} {call : Nat} {h : HttpConnection} {outcome : Outcome Unit} {clock : F} {nonces : Nat × Nat}
    (before : ∀ q stage h, s.calls[q]? = some (.serving stage h) → P q h) (here : P call h)
    (closed : P call (h.absorb (h.loop.step (.aclose (.member .failedToCreateAnswer))))) :
    ∀ q stage h', (s.goOn call h outcome clock nonces).calls[q]? = some (.serving stage h') → P q h' := by
  simp only [goOn]
  split
  · exact set_rule rfl before fun _ _ heq => by cases heq; exact here
  · exact set_rule (foldl_callback _ _ _ _).1 before fun _ _ heq => by cases heq; exact closed
  · exact before

/-- The rule for what holds of every connection, from its making on. -/
theorem serving_rule {s : HttpServer F} {e : HttpServerEvent F} (ht : s.Timely e)
    (before : ∀ call stage h, s.calls[call]? = some (.serving stage h) → P call h)
    (session : ∀ call h ev, SessionLoop.Uncalled ev → h.loop.Timely ev →
      (.onOpen ∈ (h.loop.step ev).effects → call ∈ (s.next e).handled) → P call h → P call (h.absorb (h.loop.step ev)))
    (connection : ∀ call h ev, P call h → P call { h with conn := h.conn.next ev })
    (fresh : ∀ call offer k, P call (s.made offer k)) : ∀ call stage h, (s.next e).calls[call]? = some (.serving stage h) → P call h := by
  have closed : ∀ call h error, P call h → P call (h.absorb (h.loop.step (.aclose (.member error)))) := by
    intro call h error hP
    exact session call h _ (SessionLoop.uncalled_aclose error) id (fun hmem => absurd hmem (aclose_unopened _ _)) hP
  have closeSession_rule : ∀ call error q stage h, (s.closeSession call error).calls[q]? = some (.serving stage h) → P q h := by
    intro call error
    unfold closeSession
    split
    · next stage h hc => exact set_rule (foldl_callback _ _ _ _).1 before fun _ _ heq => by cases heq; exact closed call h error (before _ _ _ hc)
    · exact before
  have acloseSessions_rule : ∀ rest q stage h, (s.acloseSessions rest).calls[q]? = some (.serving stage h) → P q h := by
    intro rest
    cases rest with
    | nil => exact before
    | cons call rest => exact closeSession_rule call .none
  cases e with
  | post networkIdText offer validation connectionId =>
    have called : ∀ q stage h, (s.calls ++ [OfferCall.refused])[q]? = some (.serving stage h) → P q h := by
      intro q stage h hq
      rw [List.getElem?_append] at hq
      split at hq
      · exact before q stage h hq
      · cases List.mem_singleton.mp (List.mem_of_getElem? hq)
    simp only [next, post]
    split
    · exact called
    · exact validate_rule (s := { s with calls := s.calls ++ [.refused] }) called _ _ _ _ (fresh _ _ _)
  | validated call accepted connectionId =>
    simp only [next]
    split
    · exact validate_rule before _ _ _ _ (fresh _ _ _)
    · exact before
  | session call ev clock nonces =>
    have stepped : SessionLoop.Uncalled ev → (s.next (.session call ev clock nonces)) = s.sessionNext call ev clock nonces →
        ∀ q stage h, (s.sessionNext call ev clock nonces).calls[q]? = some (.serving stage h) → P q h := by
      intro hev hnext
      rw [hnext] at session
      unfold sessionNext at session ⊢
      cases hc : s.calls[call]? with
      | none => exact before
      | some c =>
        cases c with
        | validating offer => exact before
        | refused => exact before
        | serving stage h =>
          simp only [hc] at session ⊢
          have hP : P call (h.absorb (h.loop.step ev)) := by
            refine session call h ev hev (ht stage h hc) (fun hmem => ?_) (before _ _ _ hc)
            rw [goOn_handled]
            exact absorb_opened hmem
          exact goOn_rule (set_rule (foldl_callback _ _ _ _).1 before fun _ _ heq => by cases heq; exact hP) hP
            (closed call _ .failedToCreateAnswer hP)
    cases ev with
    | call _ caller => exact before
    | close error notifyRemote => exact before
    | aclose error => exact before
    | _ => exact stepped trivial rfl
  | connection call ev =>
    simp only [next]
    split
    · next stage h hc => exact set_rule rfl before fun _ _ heq => by cases heq; exact connection call h ev (before _ _ _ hc)
    · exact before
  | close call error => exact closeSession_rule call error
  | tornDown call =>
    simp only [next]
    split
    · next h hc => exact set_rule rfl before fun _ _ heq => by cases heq; exact before _ _ _ hc
    · exact before
  | aclose =>
    simp only [next]
    split <;> exact before
  | signalingClosed =>
    simp only [next]
    split
    · exact acloseSessions_rule _
    · exact before
  | sessionTornDown =>
    simp only [next]
    split
    · exact acloseSessions_rule _
    · exact before

end Rule

/-! ### `aclose` -/

/-- The call has raised or returned. -/
def Over (s : HttpServer F) (call : Nat) : Prop := ∃ c, s.calls[call]? = some c ∧ c.isOver = true

/-- The connection of the call has not been closed. -/
def Live (s : HttpServer F) (call : Nat) : Prop := ∃ stage h, s.calls[call]? = some (.serving stage h) ∧ h.conn.closed = false

/-- Every call is over, and every live connection is one that `aclose` comes to yet. -/
structure Drains (s : HttpServer F) (rest : List Nat) : Prop where
  settled : ∀ call < s.calls.length, s.Over call
  live : ∀ call, s.Live call → call ∈ rest

/-- Where `aclose` is. -/
def Drained (s : HttpServer F) : Prop :=
  match s.shutdown with
  | .running | .signaling => True
  | .tearing rest => s.Drains rest
  | .done => s.Drains []

/-- The signaling server lets no offer through once it is closed, and is closed once those it let through are answered. -/
def Quiet (s : HttpServer F) : HttpServerEvent F → Prop
  | .post _ _ _ _ | .validated _ _ _ =>
    match s.shutdown with
    | .running | .signaling => True
    | .tearing _ | .done => False
  | .signalingClosed =>
    match s.shutdown with
    | .signaling => ∀ call < s.calls.length, s.Over call
    | _ => True
  | _ => True

/-- An offer comes. -/
def IsPost : HttpServerEvent F → Prop
  | .post _ _ _ _ | .validated _ _ _ => True
  | _ => False

/-- `aclose` goes on. -/
def IsShutdown : HttpServerEvent F → Prop
  | .aclose | .signalingClosed | .sessionTornDown => True
  | _ => False

/-- No call is made, and `aclose` is where it was. -/
structure Same (s s' : HttpServer F) : Prop where
  length : s'.calls.length = s.calls.length
  shutdown : s'.shutdown = s.shutdown

omit [Aiortc] in
private theorem same_setCall (s : HttpServer F) (call : Nat) (c : OfferCall) : Same s (s.setCall call c) :=
  ⟨List.length_set .., rfl⟩

omit [Aiortc] in
private theorem foldl_shutdown (effects : List Effect) (call k : Nat) (s : HttpServer F) :
    (effects.foldl (callback call k) s).shutdown = s.shutdown := by
  induction effects generalizing s with
  | nil => rfl
  | cons f rest ih =>
    refine (ih (callback call k s f)).trans ?_
    cases f <;> rfl

omit [Aiortc] in
private theorem same_absorb (s : HttpServer F) (call : Nat) (stage : Stage) (h : HttpConnection) (stepped : SessionStep Unit) :
    Same s (s.absorb call stage h stepped) := by
  refine ⟨?_, foldl_shutdown _ _ _ _⟩
  rw [absorb, (foldl_callback _ _ _ _).1]
  exact List.length_set ..

private theorem same_closeSession (s : HttpServer F) (call : Nat) (error : SessionError) : Same s (s.closeSession call error) := by
  unfold closeSession
  split
  · exact same_absorb s call _ _ _
  · exact ⟨rfl, rfl⟩

private theorem same_validate (s : HttpServer F) (call : Nat) (offer : IncomingOffer) (k : Nat) (validation : Validation) :
    Same s (s.validate call offer k validation) := by
  cases validation with
  | accepts => exact ⟨List.length_set .., rfl⟩
  | raises => exact same_setCall s call _
  | awaits => exact same_setCall s call _

private theorem same_sessionNext (s : HttpServer F) (call : Nat) (ev : SessionEvent Unit) (clock : F) (nonces : Nat × Nat) :
    Same s (s.sessionNext call ev clock nonces) := by
  unfold sessionNext
  split
  · next stage h hc =>
    have hfirst := same_absorb s call stage h (h.loop.step ev)
    simp only [goOn]
    split
    · exact ⟨(List.length_set ..).trans hfirst.length, hfirst.shutdown⟩
    · have hsecond := same_absorb { s.absorb call stage h (h.loop.step ev) with
          conns := (s.absorb call stage h (h.loop.step ev)).conns.pop (h.absorb (h.loop.step ev)).conn.connectionId } call .closing
        (h.absorb (h.loop.step ev)) ((h.absorb (h.loop.step ev)).loop.step (.aclose (.member .failedToCreateAnswer)))
      exact ⟨hsecond.length.trans hfirst.length, hsecond.shutdown.trans hfirst.shutdown⟩
    · exact hfirst
  · exact ⟨rfl, rfl⟩

/-- Only offers make calls, and only `aclose` itself goes on with `aclose`. -/
private theorem next_same (s : HttpServer F) (e : HttpServerEvent F) (he : ¬ IsShutdown e) :
    (s.next e).shutdown = s.shutdown ∧ (¬ IsPost e → (s.next e).calls.length = s.calls.length) := by
  have same : ∀ {s' : HttpServer F}, Same s s' → s'.shutdown = s.shutdown ∧ (¬ IsPost e → s'.calls.length = s.calls.length) :=
    fun h => ⟨h.shutdown, fun _ => h.length⟩
  cases e with
  | post networkIdText offer validation connectionId =>
    refine ⟨?_, fun hpost => absurd trivial hpost⟩
    simp only [next, post]
    split
    · rfl
    · exact (same_validate _ _ _ _ _).shutdown
  | validated call accepted connectionId =>
    simp only [next]
    split
    · exact same (same_validate s call _ _ _)
    · exact same ⟨rfl, rfl⟩
  | session call ev clock nonces =>
    cases ev with
    | call _ caller => exact same ⟨rfl, rfl⟩
    | close error notifyRemote => exact same ⟨rfl, rfl⟩
    | aclose error => exact same ⟨rfl, rfl⟩
    | _ => exact same (same_sessionNext s call _ clock nonces)
  | connection call ev =>
    simp only [next]
    split
    · exact same (same_setCall s call _)
    · exact same ⟨rfl, rfl⟩
  | close call error => exact same (same_closeSession s call error)
  | tornDown call =>
    simp only [next]
    split
    · exact same (same_setCall s call _)
    · exact same ⟨rfl, rfl⟩
  | aclose => exact absurd trivial he
  | signalingClosed => exact absurd trivial he
  | sessionTornDown => exact absurd trivial he

omit [Cryptography] in
/-- A connection that is closed stays closed. -/
private theorem absorb_closed {h : HttpConnection} (hm : h.Marked) {ev : SessionEvent Unit} (hev : SessionLoop.Uncalled ev)
    (hclosed : h.conn.closed = true) : (h.absorb (h.loop.step ev)).conn.closed = true :=
  (HttpConnection.absorb_conn h fun _ => hm.timer.step_member hev).1.mpr (Or.inl hclosed)

theorem drains_next {s : HttpServer F} (hk : s.Kept) {rest : List Nat} (h : s.Drains rest) {e : HttpServerEvent F} (he : ¬ IsPost e)
    (hs : ¬ IsShutdown e) : (s.next e).Drains rest := by
  have hlength := (next_same s e hs).2 he
  refine ⟨fun call hlt => ?_, fun call hlive => h.live call ?_⟩
  · obtain ⟨c, hc, hover⟩ := h.settled call (hlength ▸ hlt)
    exact over_next (P := fun c => c.isOver = true) hc hover (fun stage h₀ ev heq _ => by subst heq; exact hover) hk hover
      (fun stage h₀ ev heq => by subst heq; exact hover) e
  · obtain ⟨stage', h', hc', hopen⟩ := hlive
    obtain ⟨c, hc, hover⟩ := h.settled call (hlength ▸ (List.getElem?_eq_some_iff.mp hc').1)
    cases c with
    | validating offer => cases hover
    | refused =>
      obtain ⟨c', hcall, rfl⟩ := over_next (P := fun c => c = .refused) hc rfl (fun _ _ _ heq => by cases heq) hk hover
        (fun _ _ _ heq => by cases heq) e
      cases Option.some.inj (hcall.symm.trans hc')
    | serving stage h₀ =>
      refine ⟨stage, h₀, hc, Bool.eq_false_iff.mpr fun hclosed => ?_⟩
      have hs := hk.sound _ _ _ hc
      obtain ⟨h'', hcall, hclosed'⟩ := serving_next (P := fun h => h.conn.closed = true) hk hc hover hclosed
        (fun ev hev => absorb_closed hs.toMarked hev hclosed) (fun ev => (h₀.conn.next_kept ev).closed.trans hclosed) e
      cases Option.some.inj (hcall.symm.trans hc')
      rw [hclosed'] at hopen
      cases hopen

/-- After `session.aclose` the connection is closed. -/
private theorem closeSession_dead {s : HttpServer F} (hk : s.Kept) (call : Nat) (error : SessionError) :
    ¬ (s.closeSession call error).Live call := by
  rintro ⟨stage', h', hc', hopen⟩
  unfold closeSession at hc'
  split at hc'
  · next stage h hc =>
    rw [absorb_here hc] at hc'
    cases Option.some.inj hc'
    have hm := (hk.sound _ _ _ hc).toMarked
    have hmarked := HttpConnection.marked_step hm fun _ => hm.timer.step_member (SessionLoop.uncalled_aclose error)
    rw [hmarked.closed (h.loop.aclose_closes _)] at hopen
    cases hopen
  · next hnot => exact hnot stage' h' hc'

private theorem acloseSessions_drained {s : HttpServer F} (hk : s.Kept) {rest : List Nat} (h : s.Drains rest) :
    (s.acloseSessions rest).Drained := by
  cases rest with
  | nil => exact ⟨h.settled, h.live⟩
  | cons call rest =>
    have hnext : (s.closeSession call .none).Drains (call :: rest) := drains_next (e := .close call .none) hk h id id
    refine ⟨hnext.settled, fun q hq => ?_⟩
    refine (List.mem_cons.mp (hnext.live q hq)).resolve_left ?_
    rintro rfl
    exact closeSession_dead hk q .none hq

omit [Aiortc] in
/-- The map holds the live connections. -/
private theorem Kept.live_mem {s : HttpServer F} (hk : s.Kept) {call : Nat} (hlive : s.Live call) : call ∈ s.conns.values := by
  obtain ⟨stage, h, hc, hopen⟩ := hlive
  exact (Dict.mem_values_iff _ _).mpr ⟨h.conn.connectionId, (hk.conns _ _).mpr ⟨stage, h, hc, rfl, hopen⟩⟩

omit [Aiortc] in
private theorem Kept.empty {s : HttpServer F} (hk : s.Kept) (h : s.Drains []) : s.conns.entries = [] := by
  have hnone : s.conns.values = [] := by
    apply List.eq_nil_iff_forall_not_mem.mpr
    intro call hmem
    obtain ⟨k, hk'⟩ := (Dict.mem_values_iff _ _).mp hmem
    obtain ⟨stage, h₀, hc, _, hopen⟩ := (hk.conns k call).mp hk'
    cases h.live call ⟨stage, h₀, hc, hopen⟩
  exact List.map_eq_nil_iff.mp hnone

theorem drained_next {s : HttpServer F} (hk : s.Kept) (h : s.Drained) {e : HttpServerEvent F} (hq : s.Quiet e) : (s.next e).Drained := by
  by_cases hs : IsShutdown e
  · cases e with
    | aclose =>
      simp only [next]
      split
      · trivial
      · exact h
    | signalingClosed =>
      simp only [next]
      split
      · next hsignaling =>
        simp only [Quiet, hsignaling] at hq
        exact acloseSessions_drained hk ⟨hq, fun _ => hk.live_mem⟩
      · exact h
    | sessionTornDown =>
      simp only [next]
      split
      · next rest htearing =>
        simp only [Drained, htearing] at h
        exact acloseSessions_drained hk h
      · exact h
    | _ => exact hs.elim
  · have hshutdown := (next_same s e hs).1
    -- while the sessions are torn down no offer comes
    have other : ∀ rest, ¬ IsPost e → s.Drains rest → (s.next e).Drains rest := fun rest he h => drains_next hk h he hs
    have hposts : IsPost e → s.shutdown = .running ∨ s.shutdown = .signaling := by
      intro hpost
      cases e with
      | post networkIdText offer validation connectionId =>
        cases hsh : s.shutdown <;> simp [Quiet, hsh] at hq ⊢
      | validated call accepted connectionId =>
        cases hsh : s.shutdown <;> simp [Quiet, hsh] at hq ⊢
      | _ => exact hpost.elim
    unfold Drained at h ⊢
    rw [hshutdown]
    cases hsh : s.shutdown with
    | running => trivial
    | signaling => trivial
    | tearing rest =>
      rw [hsh] at h
      exact other rest (fun hpost => by simp [hsh] at hposts; exact hposts hpost) h
    | done =>
      rw [hsh] at h
      exact other [] (fun hpost => by simp [hsh] at hposts; exact hposts hpost) h

/-! ### Every run -/

/-- A connection is marked closed with its session, and an open session has its handler. -/
structure Settled (s : HttpServer F) (call : Nat) (h : HttpConnection) : Prop where
  marked : h.Marked
  closed : h.conn.closed = true → h.loop.session.state = .closed
  handled : .onOpen ∈ h.loop.trace → call ∈ s.handled

omit [Aiortc] in
private theorem handled_mono {s s' : HttpServer F} (h : Hands s s') {call : Nat} (hc : call ∈ s.handled) : call ∈ s'.handled := by
  rcases h with hsame | ⟨q, hnew, _⟩
  · rw [hsame]
    exact hc
  · rw [hnew]
    exact List.mem_append_left _ hc

theorem settled_next {s : HttpServer F} {e : HttpServerEvent F} (ht : s.Timely e)
    (h : ∀ call stage h, s.calls[call]? = some (.serving stage h) → s.Settled call h) :
    ∀ call stage h, (s.next e).calls[call]? = some (.serving stage h) → (s.next e).Settled call h := by
  refine serving_rule ht (fun call stage h₀ hc => ?_) (fun call h ev hev hlate hopens hP => ?_) (fun call h ev hP => ?_) fun call offer k => ?_
  · have hs := h call stage h₀ hc
    exact ⟨hs.marked, hs.closed, fun hopen => handled_mono (next_hands s e) (hs.handled hopen)⟩
  · have hcode : ∀ error, .onClose error ∈ (h.loop.step ev).effects → error.IsMember := fun _ => hP.marked.timer.step_member hev
    refine ⟨HttpConnection.marked_step hP.marked hcode, fun hclosed => ?_, fun hopen => ?_⟩
    · rcases (HttpConnection.absorb_conn h hcode).1.mp hclosed with hbefore | ⟨f, hf, hclose⟩
      · exact (h.loop.closed_step ev (hP.closed hbefore) hlate).1
      · rcases (h.loop.step_move ev).closing with ⟨hnone, _⟩ | ⟨_, hstate, _⟩
        · rw [hnone f hf] at hclose
          cases hclose
        · exact hstate
    · rw [HttpConnection.absorb, SessionLoop.step_trace] at hopen
      exact (List.mem_append.mp hopen).elim hP.handled hopens
  · have hsame := (h.conn.next_kept ev).closed
    exact ⟨⟨hP.marked.timer, by rw [hsame]; exact hP.marked.marked, by rw [hsame]; exact hP.marked.closed⟩,
      by rw [hsame]; exact hP.closed, hP.handled⟩
  · refine ⟨⟨.unarmed rfl rfl rfl, ⟨fun hc => ?_, ?_⟩, fun hc => ?_⟩, fun hc => ?_, fun hopen => ?_⟩
    · cases hc
    · rintro ⟨f, hf, hclose⟩
      cases List.mem_singleton.mp hf
      cases hclose
    · cases hc
    · cases hc
    · cases List.mem_singleton.mp hopen

/-- The condition on one event: that on its offer, that on its session, and that on the signaling server. -/
def Hosts (s : HttpServer F) (e : HttpServerEvent F) : Prop := (¬ IsShutdown e → s.Met e) ∧ s.Timely e ∧ s.Quiet e

/-- What holds in every run that meets it: when `aclose` clears the map it is empty. -/
structure Hosted (s : HttpServer F) : Prop where
  kept : s.Kept
  once : s.Once
  settled : ∀ call stage h, s.calls[call]? = some (.serving stage h) → s.Settled call h
  drained : s.Drained

theorem hosted_next {s : HttpServer F} (h : s.Hosted) {e : HttpServerEvent F} (he : s.Hosts e) : (s.next e).Hosted := by
  obtain ⟨hmet, htimely, hquiet⟩ := he
  have hmet : s.Met e := by
    by_cases hs : IsShutdown e
    · cases e with
      | aclose => trivial
      | signalingClosed => trivial
      | sessionTornDown =>
        intro htearing
        have hdrained := h.drained
        rw [Drained, htearing] at hdrained
        exact h.kept.empty hdrained
      | _ => exact hs.elim
    · exact hmet hs
  exact ⟨kept_step s e h.kept hmet, once_next h.kept h.once e, settled_next htimely h.settled, drained_next h.kept h.drained hquiet⟩

omit [Aiortc] in
theorem hosted_new (localId : NetworkId) (signer : Option (IdentitySigner F)) (relayOnly : Bool) :
    (new localId signer relayOnly).Hosted := by
  refine ⟨kept_new localId signer relayOnly, ⟨List.nodup_nil, fun call hc => ?_⟩, fun call stage h hc => ?_, trivial⟩
  · cases hc
  · cases hc

/-- The session of the call is closed. -/
def Ended (s : HttpServer F) (call : Nat) : Prop :=
  ∃ stage h, s.calls[call]? = some (.serving stage h) ∧ stage.isOver = true ∧ h.loop.session.state = .closed

theorem ended_next {s : HttpServer F} (hk : s.Kept) {call : Nat} (h : s.Ended call) (e : HttpServerEvent F) : (s.next e).Ended call := by
  obtain ⟨stage, h₀, hc, hover, hstate⟩ := h
  have hfinished := (hk.sound _ _ _ hc).finished hover
  obtain ⟨h', hc', hstate'⟩ := serving_next (P := fun h => h.loop.session.state = .closed) hk hc hover hstate
    (fun ev _ => (h₀.loop.closed_step ev hstate (SessionLoop.timely_finished hfinished ev)).1) (fun _ => hstate) e
  exact ⟨stage, h', hc', hover, hstate'⟩

/-- Once every session is closed no handler is started. -/
theorem Hosted.unhanded {s : HttpServer F} (h : s.Hosted) (hdrains : s.Drains []) (e : HttpServerEvent F) :
    (s.next e).handled = s.handled := by
  rcases next_hands s e with hsame | ⟨call, _, ⟨stage, h₀, hc, hopen, _⟩, _⟩
  · exact hsame
  · have hlive : s.Live call := ⟨stage, h₀, hc, Bool.eq_false_iff.mpr fun hclosed => hopen ((h.settled _ _ _ hc).closed hclosed)⟩
    cases hdrains.live call hlive

/-- After `session.aclose` the session is closed. -/
theorem closeSession_ended {s : HttpServer F} (hk : s.Kept) {call : Nat} (hc : call ∈ s.handled) (error : SessionError) :
    (s.closeSession call error).Ended call := by
  obtain ⟨stage, h, hcall, hover⟩ := hk.handled_over hc
  refine ⟨stage, h.absorb (h.loop.step (.aclose (.member error))), ?_, hover, h.loop.aclose_closes _⟩
  simp only [closeSession, hcall]
  exact absorb_here hcall stage h _

/-- Once `aclose` has cleared the map, that is all. -/
theorem done_next (s : HttpServer F) (e : HttpServerEvent F) (h : s.shutdown.isDone = true) : (s.next e).shutdown.isDone = true := by
  by_cases hs : IsShutdown e
  · have hdone : s.shutdown = .done := by
      cases hsh : s.shutdown with
      | done => rfl
      | _ =>
        rw [hsh] at h
        cases h
    cases e with
    | aclose => simpa [next, hdone] using h
    | signalingClosed => simpa [next, hdone] using h
    | sessionTornDown => simpa [next, hdone] using h
    | _ => exact hs.elim
  · rw [(next_same s e hs).1]
    exact h

end HttpServer

/-! ### The server with its tasks -/

namespace HttpHost
variable [Cryptography] {F : Type} [Runtime F]

/-- What holds in every run of a server with its tasks. -/
structure Kept (s : HttpHost F) : Prop where
  hosted : s.server.Hosted
  tasks : HandlerTask.Tended s.tasks s.server.handled s.server.shutdown.isDone s.server.Ended

theorem kept_new (localId : NetworkId) (signer : Option (IdentitySigner F)) (relayOnly : Bool) :
    (new localId signer relayOnly).Kept := ⟨HttpServer.hosted_new localId signer relayOnly, HandlerTask.tended_nil⟩

variable [Aiortc]

omit [Aiortc] in
private theorem drains_done {s : HttpHost F} (h : s.Kept) (hdone : s.server.shutdown.isDone = true) : s.server.Drains [] := by
  have hdrained := h.hosted.drained
  unfold HttpServer.Drained at hdrained
  split at hdrained
  · next hsh => simp [hsh, Shutdown.isDone] at hdone
  · next hsh => simp [hsh, Shutdown.isDone] at hdone
  · next hsh => simp [hsh, Shutdown.isDone] at hdone
  · exact hdrained

/-- The condition on one event: that on the event of the server it is. -/
def Hosts (s : HttpHost F) : HttpHostEvent F → Prop
  | .server e => s.server.Hosts e
  | _ => True

private theorem Kept.serve {s : HttpHost F} (h : s.Kept) {e : HttpServerEvent F} (he : s.server.Hosts e) : (s.serve e).Kept := by
  have hk := h.hosted.kept
  refine ⟨HttpServer.hosted_next h.hosted he, ?_⟩
  have htasks := h.tasks.mono fun c _ hended => HttpServer.ended_next hk hended e
  have hhandled : (s.server.next e).handled = s.server.handled ++ (s.server.next e).handled.drop s.server.handled.length := by
    rcases HttpServer.next_hands s.server e with hsame | ⟨call, hnew, _⟩
    · rw [hsame, List.drop_length, List.append_nil]
    · rw [hnew, List.drop_left]
  simp only [HttpHost.serve]
  cases hdone : s.server.shutdown.isDone with
  | true =>
    have hsame := h.hosted.unhanded (drains_done h hdone) e
    rw [hsame, List.drop_length, List.map_nil, List.append_nil, Bool.not_true, Bool.and_false, if_neg Bool.false_ne_true,
      s.server.done_next e hdone]
    rw [hdone] at htasks
    exact htasks
  | false =>
    rw [hdone] at htasks
    have happended := htasks.append ((s.server.next e).handled.drop s.server.handled.length)
    rw [← hhandled] at happended
    cases hdone' : (s.server.next e).shutdown.isDone with
    | false => exact happended
    | true => exact happended.cancel

theorem kept_next {s : HttpHost F} {e : HttpHostEvent F} (h : s.Kept) (he : s.Hosts e) : (s.next e).Kept := by
  cases e with
  | server e => exact h.serve he
  | run i => exact ⟨h.hosted, h.tasks.run i⟩
  | ended i ending =>
    simp only [next, ended]
    split
    · exact h
    · next t ht =>
      split
      · have hk := h.hosted.kept
        have he : s.server.Hosts (.close t.conn .none) := ⟨fun _ => trivial, trivial, trivial⟩
        refine ⟨HttpServer.hosted_next h.hosted he, ?_⟩
        have htasks := h.tasks.mono fun c _ hended => HttpServer.ended_next hk hended (.close t.conn .none)
        have hended := HttpServer.closeSession_ended hk (h.tasks.mem (List.mem_of_getElem? ht)) .none
        rw [HttpServer.closeSession_handled, (HttpServer.same_closeSession s.server t.conn .none).shutdown]
        exact htasks.finish ht hended ending
      · exact h
  | torn i raised => exact ⟨h.hosted, h.tasks.torn i raised⟩

/-! ### Runs -/

theorem follow_next (s : HttpHost F) (e : HttpHostEvent F) : HandlerTask.Follow s.tasks (s.next e).tasks := by
  cases e with
  | server e =>
    have happended := HandlerTask.follow_append s.tasks
      (((s.server.next e).handled.drop s.server.handled.length).map fun call => { conn := call })
    simp only [next, serve]
    split
    · exact happended.trans (HandlerTask.follow_map _ HandlerTask.onward_cancel)
    · exact happended
  | run i => exact HandlerTask.follow_modify _ _ HandlerTask.onward_run
  | ended i ending =>
    simp only [next, ended]
    split
    · exact HandlerTask.Follow.refl _
    · split
      · exact HandlerTask.follow_modify _ _ fun t => t.onward_ended ending
      · exact HandlerTask.Follow.refl _
  | torn i raised => exact HandlerTask.follow_modify _ _ fun t => t.onward_torn raised

/-- What can be said of a server at any time. -/
structure Accounted (s : HttpHost F) : Prop where
  tasks : s.tasks.map HandlerTask.conn = s.server.handled
  nodup : s.server.handled.Nodup
  handled : ∀ call : Nat, call ∈ s.server.handled ↔
    ∃ (stage : Stage) (h : HttpConnection), s.server.calls[call]? = some (.serving stage h) ∧ .onOpen ∈ h.loop.trace
  ended : ∀ t ∈ s.tasks, t.HasEnded → s.server.Ended t.conn
  cancelled : ∀ t ∈ s.tasks, t.cancelled = true ∨ t.stage = .dropped → s.server.shutdown.isDone = true
  done : s.server.shutdown.isDone = true → s.server.conns.entries = [] ∧
    ∀ (call : Nat) (stage : Stage) (h : HttpConnection), s.server.calls[call]? = some (.serving stage h) →
      h.loop.session.state = .closed ∧ h.conn.closed = true

omit [Aiortc] in
private theorem Kept.accounted {s : HttpHost F} (h : s.Kept) : s.Accounted := by
  refine ⟨h.tasks.conns, h.hosted.once.nodup, fun call => ⟨h.hosted.kept.handled call, ?_⟩, h.tasks.ended, h.tasks.cancelled, fun hdone => ?_⟩
  · rintro ⟨stage, h₀, hc, hopen⟩
    exact (h.hosted.settled _ _ _ hc).handled hopen
  · have hdrains := drains_done h hdone
    refine ⟨h.hosted.kept.empty hdrains, fun call stage h₀ hc => ?_⟩
    have hclosed : h₀.conn.closed = true := by
      cases hopen : h₀.conn.closed with
      | true => rfl
      | false => cases hdrains.live call ⟨stage, h₀, hc, hopen⟩
    exact ⟨(h.hosted.settled _ _ _ hc).closed hclosed, hclosed⟩

/-- Once `aclose` has cleared the map no handler is started. -/
private theorem done_run {s : HttpHost F} (h : s.Kept) (hdone : s.server.shutdown.isDone = true) {events : List (HttpHostEvent F)}
    (hevents : Machine.Along Hosts next s events) : (Machine.run next s events).server.handled = s.server.handled := by
  have hstep : ∀ (s' : HttpHost F) (e : HttpHostEvent F), s'.Kept ∧ s'.server.shutdown.isDone = true ∧ s'.server.handled = s.server.handled →
      s'.Hosts e → (s'.next e).Kept ∧ (s'.next e).server.shutdown.isDone = true ∧ (s'.next e).server.handled = s.server.handled := by
    rintro s' e ⟨hk, hd, hsame⟩ he
    refine ⟨kept_next hk he, ?_⟩
    cases e with
    | server e => exact ⟨s'.server.done_next e hd, (hk.hosted.unhanded (drains_done hk hd) e).trans hsame⟩
    | run i => exact ⟨hd, hsame⟩
    | ended i ending =>
      simp only [next, ended]
      split
      · exact ⟨hd, hsame⟩
      · split
        · exact ⟨s'.server.done_next (.close _ .none) hd, (hk.hosted.unhanded (drains_done hk hd) (.close _ .none)).trans hsame⟩
        · exact ⟨hd, hsame⟩
    | torn i raised => exact ⟨hd, hsame⟩
  exact (Machine.run_invariant hstep ⟨h, hdone, rfl⟩ hevents).2.2

/-- In every run of an HTTP server in which its connections are made under fresh ids, signing
does not raise, sessions end once, and the signaling server is closed only when it has no
offer left and takes none after that: each connection that opens has one task; a task goes
forward only; once the handler of a task has ended the session of its connection is closed;
and when `aclose` has cleared the map everything is closed, no task is created any more, and
none begins to run. -/
theorem serve_http_accounted (localId : NetworkId) (signer : Option (IdentitySigner F)) (relayOnly : Bool)
    (events later : List (HttpHostEvent F)) (h : Machine.Along Hosts next (new localId signer relayOnly) (events ++ later)) :
    let s := Machine.run next (new localId signer relayOnly) events
    let s' := Machine.run next s later
    s'.Accounted ∧ HandlerTask.Follow s.tasks s'.tasks ∧ (s.server.shutdown.isDone = true → HandlerTask.Held s.tasks s'.tasks) := by
  intro s s'
  obtain ⟨hevents, hlater⟩ := (Machine.along_append _ _ _ _ _).mp h
  have hkept : s.Kept := Machine.run_invariant (fun (s : HttpHost F) e hs he => kept_next hs he) (kept_new localId signer relayOnly) hevents
  have hkept' : s'.Kept := Machine.run_invariant (fun (s : HttpHost F) e hs he => kept_next hs he) hkept hlater
  have hfollow : HandlerTask.Follow s.tasks s'.tasks :=
    @Machine.run_invariant_always _ _ next (fun s' => HandlerTask.Follow s.tasks s'.tasks)
      (fun s' e hs' => hs'.trans (follow_next s' e)) s (HandlerTask.Follow.refl _) later
  refine ⟨hkept'.accounted, hfollow, fun hdone => hfollow.held ?_ (hkept.tasks.reaped hdone)⟩
  rw [← List.length_map HandlerTask.conn, ← List.length_map HandlerTask.conn, hkept'.tasks.conns, hkept.tasks.conns, done_run hkept hdone hlater]

end HttpHost

/-! ### One connection -/

namespace HttpHost

/-- No session has been made yet. -/
private theorem hosts_post [Cryptography] {F : Type} [Runtime F] [Aiortc] {s : HttpServer F} {networkIdText offer : Text} {k : Nat}
    (hcalls : s.calls = []) (hrunning : s.shutdown = .running) : s.Hosts (.post networkIdText offer .accepts k) := by
  refine ⟨fun _ call stage h hc => ?_, trivial, ?_⟩
  · rw [hcalls] at hc
    cases hc
  · simp only [HttpServer.Quiet, hrunning]

private theorem hosts_signalingClosed [Cryptography] {F : Type} [Runtime F] [Aiortc] {s : HttpServer F}
    (hover : s.calls.all OfferCall.isOver = true) : s.Hosts .signalingClosed := by
  refine ⟨fun h => absurd trivial h, trivial, ?_⟩
  simp only [HttpServer.Quiet]
  split
  · exact fun call hlt => ⟨_, List.getElem?_eq_getElem hlt, List.all_eq_true.mp hover _ (List.getElem_mem hlt)⟩
  · trivial

/-- What a session does in time. -/
private theorem hosts_session [Cryptography] {F : Type} [Runtime F] [Aiortc] {s : HttpServer F} {call : Nat} {ev : SessionEvent Unit}
    {clock : F} {nonces : Nat × Nat} (hsigner : s.identitySigner.isNone = true)
    (hlate : ∀ c ∈ s.calls[call]?, ∀ l ∈ (match c with | .serving _ h => some h.loop | _ => none : Option (SessionLoop Unit)), ¬ l.Late ev) :
    s.Hosts (.session call ev clock nonces) := by
  refine ⟨fun _ stage h answer _ _ signer hs => ?_, fun stage h hc => ?_, trivial⟩
  · rw [hs] at hsigner
    cases hsigner
  · exact hlate _ (Option.mem_def.mpr hc) _ (Option.mem_def.mpr rfl)

/-- An offer is answered, its connection opens and its handler runs; then the server is closed. -/
private def acceptOne : List (HttpHostEvent Int) :=
  let session (e : SessionEvent Unit) : HttpHostEvent Int := .server (.session 0 e 0 (0, 0))
  [.server (.post "2".toList [] .accepts 7), session (.resume 0 (.ok [])), session (.resume 0 (.ok [])), session (.resume 0 (.ok [])),
    session (.dataChannel reliableLabel true), session (.dataChannel unreliableLabel true), .run 0, .server .aclose,
    .server .signalingClosed, .server .sessionTornDown]

theorem serve_http_accounted_one :
    letI := Sample.runtime
    letI := Sample.cryptography
    letI : Aiortc := ⟨fun _ => true⟩
    let s := Machine.run next (new (.p2p 1) none false) acceptOne
    let s' := Machine.run next s [.ended 0 .connectionClosed, .torn 0 false]
    s'.tasks = [{ conn := 0, stage := .done false, cancelled := true }] ∧ s'.server.conns.entries = [] ∧
      HandlerTask.Held s.tasks s'.tasks := by
  let _ := Sample.runtime
  let _ := Sample.cryptography
  let _ : Aiortc := ⟨fun _ => true⟩
  intro s s'
  have halong : Machine.Along Hosts next (new (.p2p 1) none false : HttpHost Int)
      (acceptOne ++ [.ended 0 .connectionClosed, .torn 0 false]) := by
    show _ ∧ _ ∧ _ ∧ _ ∧ _ ∧ _ ∧ _ ∧ _ ∧ _ ∧ _ ∧ _ ∧ _ ∧ True
    refine ⟨hosts_post rfl rfl, hosts_session ?_ ?_, hosts_session ?_ ?_, hosts_session ?_ ?_, hosts_session ?_ ?_, hosts_session ?_ ?_,
      trivial, ⟨fun h => absurd trivial h, trivial, trivial⟩, hosts_signalingClosed ?_, ⟨fun h => absurd trivial h, trivial, trivial⟩,
      trivial, trivial, trivial⟩
    all_goals decide +kernel
  have hdone : s.server.shutdown.isDone = true ∧ s'.server.shutdown.isDone = true := by decide +kernel
  have haccounted : s'.Accounted ∧ HandlerTask.Follow s.tasks s'.tasks ∧
      (s.server.shutdown.isDone = true → HandlerTask.Held s.tasks s'.tasks) :=
    serve_http_accounted (.p2p 1) none false acceptOne [.ended 0 .connectionClosed, .torn 0 false] halong
  exact ⟨by decide +kernel, (haccounted.1.done hdone.2).1, haccounted.2.2 hdone.1⟩

end HttpHost
end NetherNet
