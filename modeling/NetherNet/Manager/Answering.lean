import NetherNet.Manager.Steps
import NetherNet.Session.Answering

/-! Listeners of the manager: duplicated and reordered requests. -/
namespace NetherNet
namespace Manager
open Library

/-- No CONNECTREQUEST is handled by a listener of the map that is still idle. -/
def RequestsOnce (m : Manager) (e : ManagerEvent) : Prop :=
  ∀ senderId k sdp r l, m.Received e senderId (.connectRequest k sdp) → m.sessions.get? k = some r →
    m.heap[r]? = some l → l.session.isDialer = false → l.session.state ≠ .idle

/-- Every listener satisfies `P`. -/
private def Listeners (P : Ref → SessionLoop Caller → Prop) (m : Manager) : Prop :=
  ∀ r l, m.heap[r]? = some l → l.session.isDialer = false → P r l

/-- The rule for a property that the events of a listener keep. -/
private theorem listeners_step [Aiortc] {P : Ref → SessionLoop Caller → Prop} {m : Manager} {e : ManagerEvent}
    (hm : Listeners P m) (he : m.RequestsOnce e)
    (next : ∀ r l ev, P r l → l.Heard ev → P r (l.next ev))
    (enrolled : ∀ k senderId sdp,
      P m.heap.length ((SessionLoop.fresh (Session.new k m.localId senderId false m.relayOnly)).next
        (.call (.handleSignal (.connectRequest k sdp)) (.newSession senderId (.connectRequest k sdp))))) :
    Listeners P (m.next e) := by
  have keeps : ∀ r (l : SessionLoop Caller) ev, (l.session.isDialer = false → P r l) →
      (l.session.isDialer = false → l.Heard ev) → (l.next ev).session.isDialer = false → P r (l.next ev) := by
    intro r l ev hl hheard hd
    rw [(l.next_identity ev).2.2] at hd
    exact next r l ev (hl hd) (hheard hd)
  apply (step_acts m e).sessions (P := fun r l => l.session.isDialer = false → P r l)
  · exact hm
  · intro r ev l _ hc hl
    refine keeps r l ev (hm r l hl) fun _ => ?_
    cases ev with
    | call c caller => cases hc
    | _ => trivial
  · intro k remoteId isDialer c caller hk
    cases hk with
    | dial _ => exact fun hd => by cases ((SessionLoop.next_identity _ _).2.2.symm.trans hd)
    | listen sdp _ _ => exact fun _ => enrolled k remoteId sdp
  · intro senderId parsed r l hs hr hl
    refine keeps r l _ (hm r l hl) fun hd => ?_
    cases parsed with
    | connectRequest k sdp => exact Or.inl (he senderId k sdp r l hs hr hl hd)
    | _ => trivial
  · intro r l senderId parsed c rest _ hl
    exact keeps r l _ hl fun _ => trivial
  · intro _ r l hl
    exact keeps r l _ hl fun _ => trivial

private theorem answers_next [Aiortc] (m : Manager) (e : ManagerEvent)
    (hm : Listeners (fun _ l => l.Answers) m) (he : m.RequestsOnce e) : Listeners (fun _ l => l.Answers) (m.next e) := by
  apply listeners_step hm he
  · exact fun _ l ev hl hheard => l.answers_step ev hl hheard
  · intro k senderId sdp
    exact SessionLoop.answers_step _ _ (SessionLoop.answers_fresh k m.localId senderId m.relayOnly) (Or.inr ⟨rfl, rfl⟩)

/-- The sessions of `m₀` that were connected listeners there are settled since. -/
private def SettledSince (m₀ m : Manager) : Prop :=
  m₀.heap.length ≤ m.heap.length ∧
    Listeners (fun r l => ∀ l₀, m₀.heap[r]? = some l₀ → l₀.session.state = .connected → l₀.Settled l) m

private theorem settledSince_next [Aiortc] (m₀ m : Manager) (e : ManagerEvent) (hm : SettledSince m₀ m)
    (he : m.RequestsOnce e) : SettledSince m₀ (m.next e) := by
  refine ⟨Nat.le_trans hm.1 (length_step m e), listeners_step hm.2 he ?_ ?_⟩
  · intro r l ev hl hheard l₀ hl₀ hs
    exact SessionLoop.settled_step l ev (hl l₀ hl₀ hs) hheard
  · intro k senderId sdp l₀ hl₀ _
    obtain ⟨hlt, _⟩ := List.getElem?_eq_some_iff.mp hl₀
    exact absurd hlt (Nat.not_lt_of_le hm.1)

/-- In every run in which no listener is handed a CONNECTREQUEST while it is idle,
but for the one that creates it: a listener starts `create_answer` and sends
CONNECTRESPONSE at most once, and once connected it leaves that state for CLOSED only. -/
theorem listeners_answer_once [Aiortc] (localId : NetworkId) (relayOnly : Bool) (before after : List ManagerEvent)
    (h : Machine.Along RequestsOnce next (new localId relayOnly) (before ++ after)) (r : Ref)
    (l : SessionLoop Caller)
    (hl : (Machine.run next (new localId relayOnly) (before ++ after)).heap[r]? = some l)
    (hd : l.session.isDialer = false) :
    l.trace.countP Effect.isCreateAnswer ≤ 1 ∧ l.trace.countP Effect.isResponse ≤ 1 ∧
      ∀ l₀, (Machine.run next (new localId relayOnly) before).heap[r]? = some l₀ → l₀.session.state = .connected →
        (l.session.state = .connected ∨ l.session.state = .closed) ∧
          ∃ rest, l.trace = l₀.trace ++ rest ∧ ∀ f ∈ rest, ∀ error, f ≠ .armed error := by
  obtain ⟨hbefore, hafter⟩ := (Machine.along_append _ _ _ before after).mp h
  have start : Listeners (fun _ l => l.Answers) (new localId relayOnly) := fun r l hr => by simp [new] at hr
  have hall := Machine.run_invariant answers_next start h
  have hmid := Machine.run_invariant answers_next start hbefore
  have hsince : SettledSince (Machine.run next (new localId relayOnly) before)
      (Machine.run next (Machine.run next (new localId relayOnly) before) after) := by
    apply Machine.run_invariant (settledSince_next _) _ hafter
    refine ⟨Nat.le_refl _, fun r l hr hd l₀ hl₀ hs => ?_⟩
    obtain rfl := Option.some.inj (hr.symm.trans hl₀)
    exact SessionLoop.settled_connected (hmid r l hr hd) hs
  rw [← Machine.run_append] at hsince
  have hanswers := hall r l hl hd
  refine ⟨hanswers.started, ?_, ?_⟩
  · have hserved := hanswers.served
    have hstarted := hanswers.started
    omega
  · intro l₀ hl₀ hs
    have hsettled := hsince.2 r l hl hd l₀ hl₀ hs
    exact ⟨hsettled.state, hsettled.unarmed⟩

/-- A request and, once its answer is sent, its duplicate. -/
theorem listeners_answer_once_duplicate :
    letI : Aiortc := ⟨fun _ => true⟩
    let request := (SignalingMessage.connectRequest 7 []).serialize
    let goOn : ManagerEvent := .session 0 (.resume 0 (.ok []))
    let m := Machine.run next (new (.p2p 1) false)
      ([.deliver (.p2p 2) request, .deliver (.p2p 2) request, .start 0, goOn, goOn, goOn] ++ [.start 0])
    ∃ l, m.heap[0]? = some l ∧ l.session.state = .answerSent ∧ l.trace.countP Effect.isCreateAnswer ≤ 1 ∧
      l.trace.countP Effect.isResponse ≤ 1 := by
  let _ : Aiortc := ⟨fun _ => true⟩
  intro request goOn m
  have other : ∀ (m : Manager) (e : ManagerEvent), (∀ index, e ≠ .start index) → m.RequestsOnce e :=
    fun m e he _ _ _ _ _ ⟨index, _, hs, _⟩ => absurd hs (he index)
  have busy : ∀ (m : Manager) (e : ManagerEvent), (∀ l ∈ m.heap, l.session.state ≠ .idle) → m.RequestsOnce e :=
    fun m e hm _ _ _ _ l _ _ hl _ => hm l (List.mem_of_getElem? hl)
  have along : Machine.Along RequestsOnce next (new (.p2p 1) false)
      ([.deliver (.p2p 2) request, .deliver (.p2p 2) request, .start 0, goOn, goOn, goOn] ++ [.start 0]) := by
    refine ⟨other _ _ (by simp), other _ _ (by simp), busy _ _ (by decide +kernel), other _ _ (by simp [goOn]),
      other _ _ (by simp [goOn]), other _ _ (by simp [goOn]), busy _ _ (by decide +kernel), trivial⟩
  have hheap : ∃ l, m.heap[0]? = some l ∧ l.session.state = .answerSent ∧ l.session.isDialer = false :=
    ⟨(m.heap[0]?).getD (SessionLoop.fresh (Session.new 0 .unset .unset true false)), by decide +kernel, by decide +kernel,
      by decide +kernel⟩
  obtain ⟨l, hl, hs, hd⟩ := hheap
  obtain ⟨hcreate, hresponse, _⟩ := listeners_answer_once (.p2p 1) false _ _ along 0 l hl hd
  exact ⟨l, hl, hs, hcreate, hresponse⟩

/-- The same request twice before the first `create_answer` returns: the idle listener
starts a second one, which sends a second CONNECTRESPONSE and moves the session, by
then connected, back to ANSWER_SENT with a timer. -/
theorem duplicate_request_answered_twice :
    letI : Aiortc := ⟨fun _ => true⟩
    let request := (SignalingMessage.connectRequest 7 []).serialize
    let goOn : Nat → ManagerEvent := fun index => .session 0 (.resume index (.ok []))
    let connected := Machine.run next (new (.p2p 1) false)
      [.deliver (.p2p 2) request, .deliver (.p2p 2) request, .start 0, .start 0, goOn 0, goOn 1, goOn 1,
        .session 0 (.dataChannel reliableLabel true), .session 0 (.dataChannel unreliableLabel true)]
    let m := Machine.run next connected [goOn 0, goOn 0, goOn 0]
    connected.heap.map (fun l => (l.session.isDialer, l.session.state)) = [(false, .connected)] ∧
      m.heap.map (fun l => (l.session.state, l.session.scheduled.length)) = [(.answerSent, 1)] ∧
      m.heap.map (fun l => (l.trace.countP Effect.isCreateAnswer, l.trace.countP Effect.isResponse)) = [(2, 2)] := by
  decide +kernel

end Manager
end NetherNet
