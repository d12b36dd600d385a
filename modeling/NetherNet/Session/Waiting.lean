import NetherNet.Session.Answering

/-! What an open session waits for: its connection, its timer, or the coroutine that
takes it out of IDLE. -/
namespace NetherNet
variable {κ : Type}

/-- The coroutines after which a session is no longer idle. -/
def Handler.starts : Handler → Bool
  | .offering _ | .answering _ _ => true
  | _ => false

namespace SessionLoop

/-- The negotiation timer is armed. -/
def Armed (s : Session) : Prop := ∃ handle error, s.timeoutHandle = some handle ∧ (handle, error) ∈ s.scheduled

/-- The session is over, connected, or will be closed by its timer. -/
def Timed (s : Session) : Prop := s.state = .closed ∨ s.state = .connected ∨ Armed s

/-- The suspended coroutines inside `create_offer` or `create_answer`. -/
def starting (l : SessionLoop κ) : Nat := l.tasks.countP (·.coroutine.handler.starts)

def Ready (l : SessionLoop κ) : Prop := Timed l.session ∨ l.session.state = .idle ∧ 0 < l.starting

/-- After `aclose`, a session is closed. -/
theorem aclose_closes [Aiortc] (l : SessionLoop κ) (error : ErrorCode) : (l.next (.aclose error)).session.state = .closed := by
  simp only [next, step, ran, Session.aclose]
  split
  · next hs => simp [Session.close, hs]
  · next hs => exact Classical.not_not.mp hs

/-! ### What a raise leaves behind -/

/-- Past its first await, a `create_answer` has set the remote description. -/
def Described (l : SessionLoop κ) : Prop :=
  ∀ t ∈ l.tasks, t.coroutine.described = true → l.session.pc.remoteDescriptionSet = true

/-- The remote description stays set. -/
theorem remote_step [Aiortc] (l : SessionLoop κ) (e : SessionEvent κ) (h : l.session.pc.remoteDescriptionSet = true) :
    (l.next e).session.pc.remoteDescriptionSet = true := by
  have hsteps := l.step_steps e
  simp only [next]
  generalize l.step e = stepped at hsteps ⊢
  cases hsteps with
  | callback _ s' effects hc => exact hc.pc.remote.trans h
  | call c caller seg hb =>
    rw [segment_session]
    cases hb with
    | closes k error => exact (Session.close_callback l.session error false).pc.remote.trans h
    | accept answer hs => simpa using h
    | response k answer hs hd => simpa using h
    | _ => exact h
  | resume index reply t seg ht hw =>
    rw [segment_session]
    generalize t.coroutine = c at hw
    cases hw with
    | raises c => exact h
    | goes c c' sdp pc effects hc hd hpc => exact hpc.remote h
    | applied handler answer a sdp pc effects hpc => exact hpc.remote h
    | added cand sdp => exact h
    | offered handler sdp s' hs' => cases handler <;> simpa [Session.afterStart, Session.afterOffer, hs'] using h
    | answered handler offer sdp s' hs' => cases handler <;> simpa [Session.afterAnswer, Session.afterRequest, hs'] using h

theorem described_step [Aiortc] (l : SessionLoop κ) (e : SessionEvent κ) (h : Described l) : Described (l.next e) := by
  intro t' ht' hd'
  have keeps := l.remote_step e
  have hsteps := l.step_steps e
  simp only [next] at ht' keeps ⊢
  generalize l.step e = stepped at ht' keeps hsteps ⊢
  cases hsteps with
  | callback _ s' effects hc => exact keeps (h t' ht' hd')
  | call c caller seg hb =>
    rw [segment_tasks] at ht'
    cases hb <;> simp only [List.mem_append, List.mem_singleton] at ht' <;>
      first
      | exact keeps (h t' ht' hd')
      | rcases ht' with ht' | rfl
        · exact keeps (h t' ht' hd')
        · cases hd'
  | resume index reply t seg ht hw =>
    have hmem := List.mem_of_getElem? ht
    rw [segment_tasks] at ht'
    have old : t' ∈ l.tasks.eraseIdx index → (({ l with tasks := l.tasks.eraseIdx index } : SessionLoop κ).segment seg
        t.caller).loop.session.pc.remoteDescriptionSet = true :=
      fun ht' => keeps (h t' (List.mem_of_mem_eraseIdx ht') hd')
    generalize hcoroutine : t.coroutine = c at hw
    cases hw with
    | goes c c' sdp pc effects hc hd hpc =>
      rcases List.mem_append.mp ht' with ht' | ht'
      · exact old ht'
      · obtain rfl := List.mem_singleton.mp ht'
        rcases hd hd' with hpast | hset
        · exact keeps (h t hmem (hcoroutine ▸ hpast))
        · simpa using hset
    | offered handler sdp s' hs' => cases handler <;> exact old ht'
    | answered handler offer sdp s' hs' => cases handler <;> exact old ht'
    | _ => exact old ht'

end SessionLoop
end NetherNet
