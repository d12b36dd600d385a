import NetherNet.Session.Closing

/-! The negotiation timer goes with the state: whatever happens to a session, in time or
late, the timer that is armed reports the message the state waits for. -/
namespace NetherNet.SessionLoop
open Library
variable {κ : Type}

/-- The error that the timer of a state reports, for the states that have one. -/
def timerError : SessionState → Option SessionError
  | .offerSent => some .negotiationTimeoutWaitingForResponse
  | .answerSent | .negotiating => some .negotiationTimeoutWaitingForAccept
  | .idle | .connected | .closed => none

theorem timerError_eq_some {state : SessionState} {error : SessionError} : timerError state = some error ↔ Waits state error := by
  constructor
  · intro h
    cases state with
    | offerSent =>
      cases h
      exact .offerSent
    | answerSent =>
      cases h
      exact .answerSent
    | negotiating =>
      cases h
      exact .negotiating
    | idle => cases h
    | connected => cases h
    | closed => cases h
  · intro h
    cases h <;> rfl

/-- No timer in a state that waits for nothing; else the one whose handle the session keeps. -/
inductive TimerKept (s : Session) : Prop where
  | unarmed (hw : timerError s.state = none) (hh : s.timeoutHandle = none) (hs : s.scheduled = [])
  | armed (handle : Nat) (error : SessionError) (hw : timerError s.state = some error) (hh : s.timeoutHandle = some handle)
      (hs : s.scheduled = [(handle, .member error)])

theorem TimerKept.oneTimer {s : Session} (h : TimerKept s) : OneTimer s := by
  unfold OneTimer
  cases h with
  | unarmed _ hh hs =>
    rw [hh]
    exact hs
  | armed handle error _ hh hs =>
    rw [hh]
    exact Or.inr ⟨_, hs⟩

/-- What is scheduled is a function of the state, but for the handle. -/
theorem TimerKept.errors {s : Session} (h : TimerKept s) :
    s.scheduled.map Prod.snd = (timerError s.state).toList.map ErrorCode.member := by
  cases h with
  | unarmed hw _ hs => rw [hw, hs]; rfl
  | armed handle error hw _ hs => rw [hw, hs]; rfl

private theorem timerKept_cancelled {s : Session} (h : OneTimer s) (hw : timerError s.state = none) : TimerKept s.cancelTimeout := by
  refine .unarmed ?_ (Session.cancelTimeout_timeoutHandle s) (cancelTimeout_scheduled s h)
  rw [Session.cancelTimeout_state]
  exact hw

/-- Every move pairs the timer with the state again, also on a closed session. -/
private theorem timerKept_move {late : Prop} {s s' : Session} {effects : List Effect} (h : TimerKept s)
    (hm : Session.Move late s s' effects) : TimerKept s' := by
  cases hm with
  | quiet pc scheduled _ _ _ hl =>
    have hsame : scheduled = s.scheduled := by
      rcases hl with hl | ⟨hc, hl⟩
      · exact hl
      · have herrors := h.errors
        rw [hc] at herrors
        rw [List.map_eq_nil_iff.mp herrors] at hl ⊢
        exact List.sublist_nil.mp hl
    subst hsame
    cases h with
    | unarmed hw hh hs => exact .unarmed hw hh hs
    | armed handle error hw hh hs => exact .armed handle error hw hh hs
  | opens pc _ _ _ _ =>
    exact timerKept_cancelled (s := { s with pc := pc, state := .connected }) h.oneTimer rfl
  | arms pc state error _ hw _ _ _ =>
    have hone : OneTimer { s with pc := pc, state := state } := h.oneTimer
    refine .armed _ error ?_ rfl ?_
    · rw [Session.armTimeout_state]
      exact timerError_eq_some.mpr hw
    · simp only [Session.armTimeout, cancelTimeout_scheduled _ hone, List.nil_append]
  | closes scheduled error _ _ hl _ =>
    have hone := oneTimer_sublist s scheduled h.oneTimer hl
    have hclosed := timerKept_cancelled (s := { s with scheduled := scheduled, state := .closed }) hone rfl
    cases hclosed with
    | unarmed hw hh hs => exact .unarmed hw hh hs
    | armed handle error hw hh hs => exact .armed handle error hw hh hs

theorem timerKept_step [Aiortc] (l : SessionLoop κ) (e : SessionEvent κ) (h : TimerKept l.session) : TimerKept (l.next e).session :=
  timerKept_move h (l.step_move e)

/-- What the event loop's timer does when it goes off. -/
theorem TimerKept.fires {s : Session} (h : TimerKept s) (handle : Nat) :
    (s.fireTimer handle).2 = [] ∨
      ∃ error, timerError s.state = some error ∧ s.timeoutHandle = some handle ∧
        (s.fireTimer handle).2 = [.onClose (.member error)] := by
  cases h with
  | unarmed _ _ hs =>
    refine Or.inl ?_
    simp [Session.fireTimer, hs]
  | armed kept error hw hh hs =>
    by_cases heq : kept = handle
    · subst heq
      refine Or.inr ⟨error, hw, hh, ?_⟩
      have hopen : s.state ≠ .closed := by
        intro hc
        rw [hc] at hw
        cases hw
      simp [Session.fireTimer, Session.close, hs, hopen]
    · refine Or.inl ?_
      simp [Session.fireTimer, hs, heq]

/-- In every run of a session, of either role and either style of signaling, whatever its
suspended handlers do and in whatever order: exactly the states that wait have a timer, one,
with the error of the message awaited, and no timer goes off in any other state. -/
theorem timer_matches_state [Aiortc] (connectionId : Nat) (localId remoteId : NetworkId) (isDialer relayOnly : Bool)
    (events : List (SessionEvent κ)) :
    let s := (Machine.run next (fresh (Session.new connectionId localId remoteId isDialer relayOnly)) events).session
    s.scheduled.map Prod.snd = (timerError s.state).toList.map ErrorCode.member ∧
      ∀ handle, (s.fireTimer handle).2 = [] ∨
        ∃ error, timerError s.state = some error ∧ s.scheduled = [(handle, .member error)] ∧
          (s.fireTimer handle).2 = [.onClose (.member error)] := by
  have hkept : TimerKept (Machine.run next (fresh (Session.new connectionId localId remoteId isDialer relayOnly))
      events).session :=
    Machine.run_invariant_always (fun l e => timerKept_step l e) (.unarmed rfl rfl rfl) events
  refine ⟨hkept.errors, fun handle => ?_⟩
  rcases hkept.fires handle with hnone | ⟨error, hw, hh, hfires⟩
  · exact Or.inl hnone
  · refine Or.inr ⟨error, hw, ?_, hfires⟩
    cases hkept with
    | unarmed hno _ _ =>
      rw [hno] at hw
      cases hw
    | armed kept error' hw' hh' hs =>
      rw [hs]
      rw [hw'] at hw
      rw [hh'] at hh
      cases hw
      cases hh
      rfl

end NetherNet.SessionLoop
