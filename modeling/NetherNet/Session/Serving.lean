import NetherNet.Session.Opening
import NetherNet.Session.Timing

/-! A session whose one coroutine is an `answer` call: what each event does to it, and the
codes it may close with. -/
namespace NetherNet
open Library
variable {κ : Type}

def Effect.isAnswered : Effect → Bool
  | .answered _ _ => true
  | _ => false

namespace Session

private theorem close_codes (s : Session) (error : ErrorCode) (notifyRemote : Bool) {error' : ErrorCode}
    (h : .onClose error' ∈ (s.close error notifyRemote).2) : error' = error := by
  unfold close at h
  split at h
  · cases h
  · rcases List.mem_append.mp h with h | h
    · split at h
      · cases List.mem_singleton.mp h
      · cases h
    · cases List.mem_singleton.mp h
      rfl

private theorem callback_unanswered {s s' : Session} {effects : List Effect} (h : Callback s s' effects) :
    ∀ f ∈ effects, f.isAnswered = false := by
  intro f hf
  rcases h.effects f hf with rfl | ⟨data, rfl⟩ | ⟨error, rfl⟩ | ⟨error, rfl⟩ <;> rfl

private theorem negotiates_unanswered {pc pc' : PeerConnection} {effects : List Effect} (h : Negotiates pc pc' effects) :
    ∀ f ∈ effects, f.isAnswered = false := by
  intro f hf
  rcases h.effects f hf with ⟨sdp, rfl⟩ | ⟨c, _, rfl⟩ <;> rfl

private theorem channelEvent_open (s : Session) (opened : PeerConnection × Bool) (error : ErrorCode) :
    .onClose error ∉ (s.channelEvent opened).2 := by
  unfold channelEvent handleChannelsOpen
  simp only
  split
  · split <;> simp
  · simp

end Session

namespace SessionLoop

/-- No coroutine is called, and whoever closes the session does it with a `SessionError`. -/
def Uncalled : SessionEvent κ → Prop
  | .call _ _ => False
  | .close error _ | .aclose error => error.IsMember
  | _ => True

/-- Then the session closes with a `SessionError`: the timers and aiortc know no other codes. -/
theorem TimerKept.step_member [Aiortc] {l : SessionLoop κ} (h : TimerKept l.session) {e : SessionEvent κ} (he : Uncalled e)
    {error : ErrorCode} (hm : .onClose error ∈ (l.step e).effects) : error.IsMember := by
  cases e with
  | call c caller => exact he.elim
  | resume index reply => cases l.resume_silent index reply _ hm
  | close code notifyRemote =>
    obtain rfl := Session.close_codes _ _ _ hm
    exact he
  | aclose code =>
    simp only [step, ran, Session.aclose] at hm
    split at hm
    · obtain rfl := Session.close_codes _ _ _ hm
      exact he
    · cases hm
  | timer handle =>
    have hfires := h.fires handle
    simp only [step, ran] at hm
    rcases hfires with hnone | ⟨code, _, _, hone⟩
    · rw [hnone] at hm
      cases hm
    · rw [hone] at hm
      cases List.mem_singleton.mp hm
      exact ⟨code, rfl⟩
  | connectionState state =>
    simp only [step, ran, Session.handleConnectionState] at hm
    split at hm
    · cases hm
    · cases state with
      | failed => exact ⟨_, Session.close_codes _ _ _ hm⟩
      | closed =>
        simp only at hm
        split at hm
        · exact ⟨_, Session.close_codes _ _ _ hm⟩
        · cases hm
      | new => cases hm
      | connecting => cases hm
      | connected => cases hm
  | dataChannel label readyState =>
    simp only [step] at hm
    split at hm
    · exact absurd hm (Session.channelEvent_open _ _ _)
    · cases hm
  | channelOpen isReliable =>
    simp only [step] at hm
    split at hm
    · exact absurd hm (Session.channelEvent_open _ _ _)
    · cases hm
  | channelMessage isReliable data =>
    simp only [step] at hm
    split at hm
    · obtain ⟨packet, _, heq⟩ := List.mem_map.mp hm
      cases heq
    · cases hm
  | send data sendType => cases hm

/-- Without a suspended coroutine no event brings one, and none answers. -/
theorem step_finished [Aiortc] (l : SessionLoop κ) {e : SessionEvent κ} (he : Uncalled e) (ht : l.tasks = []) :
    (l.step e).loop.tasks = [] ∧ (l.step e).outcome = .none ∧ ∀ f ∈ (l.step e).effects, f.isAnswered = false := by
  have hsteps := l.step_steps e
  generalize l.step e = stepped at hsteps ⊢
  cases hsteps with
  | call c caller seg hb => exact he.elim
  | resume index reply t seg hget hw =>
    rw [ht] at hget
    cases hget
  | callback _ s' effects hc => exact ⟨ht, rfl, Session.callback_unanswered hc⟩

/-- Nor can it come too late. -/
theorem timely_finished {l : SessionLoop κ} (ht : l.tasks = []) (e : SessionEvent κ) : l.Timely e := by
  intro hlate
  cases e with
  | resume index reply =>
    cases reply with
    | ok sdp =>
      obtain ⟨t, hget, _⟩ := hlate
      rw [ht] at hget
      cases hget
    | raised => exact hlate
  | _ => exact hlate

theorem quiet_unopened {effects : List Effect} (h : ∀ f ∈ effects, f.quiet = true) : .onOpen ∉ effects := by
  intro hm
  cases h _ hm

theorem uncalled_aclose (error : SessionError) : Uncalled (.aclose (.member error) : SessionEvent κ) := ⟨error, rfl⟩

/-- What an event does to a session whose one coroutine is an `answer` call. -/
inductive Serves (l : SessionLoop κ) (offer : Text) (caller : κ) (stepped : SessionStep κ) : Prop where
  | waits (a : AnswerAwait) (ht : stepped.loop.tasks = [⟨.answering .answer offer a, caller⟩]) (ho : stepped.outcome = .none)
      (hd : stepped.loop.session.pc.localDescription = l.session.pc.localDescription)
      (hf : ∀ f ∈ stepped.effects, f.isAnswered = false)
  | raised (ht : stepped.loop.tasks = []) (ho : stepped.outcome = .raised caller) (hf : stepped.effects = [])
  | returned (sdp : Text) (error : ErrorCode) (ht : stepped.loop.tasks = []) (ho : stepped.outcome = .returned caller (some sdp))
      (hf : stepped.effects = [.answered offer sdp, .armed error])

theorem step_serves [Aiortc] (l : SessionLoop κ) {e : SessionEvent κ} (he : Uncalled e) {offer : Text} {a : AnswerAwait} {caller : κ}
    (ht : l.tasks = [⟨.answering .answer offer a, caller⟩]) : Serves l offer caller (l.step e) := by
  have hsteps := l.step_steps e
  generalize l.step e = stepped at hsteps ⊢
  cases hsteps with
  | call c caller seg hb => exact he.elim
  | callback _ s' effects hc => exact .waits a ht rfl hc.pc.localDescription (Session.callback_unanswered hc)
  | resume index reply t seg hget hw =>
    rw [ht] at hget
    cases index with
    | succ index => cases hget
    | zero =>
      cases hget
      have hleft : l.tasks.eraseIdx 0 = [] := by rw [ht]; rfl
      generalize hcoroutine : Suspended.answering .answer offer a = c at hw
      cases hw with
      | raises c => exact .raised hleft rfl rfl
      | goes c c' sdp pc effects hc _ hpc =>
        rw [← hcoroutine] at hc
        cases c' with
        | answering handler offer' a' =>
          cases hc
          refine .waits a' ?_ rfl hpc.localDescription (Session.negotiates_unanswered hpc)
          rw [segment_tasks]
          exact congrArg (· ++ _) hleft
        | offering handler a' => cases hc
        | applying handler answer a' => cases hc
        | adding cand => cases hc
      | answered handler offer' sdp s' hs' =>
        cases hcoroutine
        exact .returned s'.pc.localSdp _ hleft rfl rfl
      | applied handler answer a' sdp pc effects hpc => cases hcoroutine
      | added cand sdp => cases hcoroutine
      | offered handler sdp s' hs' => cases hcoroutine

/-- Before its local description is set a session does not open. -/
theorem step_unopened [Aiortc] (l : SessionLoop κ) (e : SessionEvent κ) (h : l.session.pc.localDescription = none) :
    .onOpen ∉ (l.step e).effects := by
  intro hm
  have hcalls := l.step_calls e
  generalize (l.step e).effects = effects at hm hcalls
  cases hcalls with
  | silent _ hsilent => cases hsilent _ hm
  | opens hn _ _ =>
    rw [PeerConnection.negotiated, h] at hn
    simp at hn
  | closes notice error hn _ _ =>
    rcases List.mem_append.mp hm with hm | hm
    · cases hn _ hm
    · cases List.mem_singleton.mp hm
  | packets packets _ _ =>
    obtain ⟨data, _, heq⟩ := List.mem_map.mp hm
    cases heq

end SessionLoop
end NetherNet
