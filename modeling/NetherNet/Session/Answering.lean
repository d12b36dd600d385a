import Mathlib.Data.List.Perm.Basic
import NetherNet.Session.Moves
import NetherNet.Session.Segments

/-! A listener that is given one request while it is idle answers once, and keeps
the connection it reaches until it closes. -/
namespace NetherNet
variable {κ : Type}

def Effect.isCreateAnswer : Effect → Bool
  | .createAnswer _ => true
  | _ => false

/-- A signal of one kind is sent. -/
def Effect.isSignal (i : SignalingMessage.Identifier) : Effect → Bool
  | .sendSignal message => (SignalingMessage.tokenize message).map (·.1) = some i.text
  | _ => false

/-- A CONNECTRESPONSE is sent. -/
def Effect.isResponse (f : Effect) : Bool := f.isSignal .connectResponse

/-- Neither the start of an answer nor its end. -/
def Effect.unanswering (f : Effect) : Prop := f.isCreateAnswer = false ∧ f.isResponse = false

def Handler.isAnswering : Handler → Bool
  | .answering _ _ => true
  | _ => false

@[simp] theorem isSignal_serialize (i : SignalingMessage.Identifier) (m : SignalingMessage) :
    Effect.isSignal i (.sendSignal m.serialize) = decide (m.identifier = i) := by
  have htext : m.identifier.text = i.text ↔ m.identifier = i := by
    constructor
    · intro h
      have hfind := congrArg SignalingMessage.byIdentifier h
      rw [SignalingMessage.byIdentifier_text, SignalingMessage.byIdentifier_text] at hfind
      exact Option.some.inj hfind
    · exact fun h => h ▸ rfl
  simp [Effect.isSignal, SignalingMessage.tokenize_serialize, htext]

@[simp] theorem isResponse_serialize (m : SignalingMessage) :
    Effect.isResponse (.sendSignal m.serialize) = decide (m.identifier = .connectResponse) := isSignal_serialize _ m

theorem perm_eraseIdx {α : Type} {xs : List α} {index : Nat} {x : α} (h : xs[index]? = some x) :
    (x :: xs.eraseIdx index).Perm xs := by
  obtain ⟨hlt, rfl⟩ := List.getElem?_eq_some_iff.mp h
  exact List.getElem_cons_eraseIdx_perm hlt

theorem countP_eraseIdx {α : Type} {xs : List α} {index : Nat} {x : α} (p : α → Bool) (h : xs[index]? = some x) :
    (xs.eraseIdx index).countP p + (if p x then 1 else 0) = xs.countP p := by
  rw [← (perm_eraseIdx h).countP_eq p, List.countP_cons]

/-- Of the elements that occur at most once, two are one. -/
theorem eq_of_countP_le_one {α : Type} {p : α → Bool} {xs : List α} (h : xs.countP p ≤ 1) {a b : α} (ha : a ∈ xs)
    (hb : b ∈ xs) (hpa : p a = true) (hpb : p b = true) : a = b := by
  rw [List.countP_eq_length_filter] at h
  have ha' : a ∈ xs.filter p := List.mem_filter.mpr ⟨ha, hpa⟩
  have hb' : b ∈ xs.filter p := List.mem_filter.mpr ⟨hb, hpb⟩
  match hxs : xs.filter p, h, ha', hb' with
  | [x], _, ha', hb' =>
    rw [List.mem_singleton.mp ha', List.mem_singleton.mp hb']

namespace SessionLoop

/-- The suspended coroutines inside `create_answer`. -/
def answering (l : SessionLoop κ) : Nat := l.tasks.countP (·.coroutine.handler.isAnswering)

/-- A listener under the session manager: what it has answered, and what it still will. -/
structure Answers (l : SessionLoop κ) : Prop where
  listener : l.session.isDialer = false
  started : l.trace.countP Effect.isCreateAnswer ≤ 1
  served : l.trace.countP Effect.isResponse + l.answering ≤ l.trace.countP Effect.isCreateAnswer
  described : l.session.pc.localDescription.isSome → l.answering = 0 ∧ l.trace.countP Effect.isCreateAnswer = 1
  connected : l.session.state = .connected → l.session.pc.localDescription.isSome
  coroutines : ∀ t ∈ l.tasks, (∃ offer, t.coroutine.handler = .answering .handleRequest offer) ∨
    ∃ c, t.coroutine.handler = .adding c

/-- Only signals are handed to it, and a request while it is idle is its first event. -/
def Heard (l : SessionLoop κ) : SessionEvent κ → Prop
  | .call (.handleSignal (.connectRequest _ _)) _ => l.session.state ≠ .idle ∨ l.trace = [] ∧ l.tasks = []
  | .call (.handleSignal _) _ => True
  | .call _ _ => False
  | _ => True

private theorem countP_append_unanswering (trace : List Effect) {effects : List Effect}
    (h : ∀ f ∈ effects, f.unanswering) :
    (trace ++ effects).countP Effect.isCreateAnswer = trace.countP Effect.isCreateAnswer ∧
      (trace ++ effects).countP Effect.isResponse = trace.countP Effect.isResponse := by
  have hcreate : effects.countP Effect.isCreateAnswer = 0 := List.countP_eq_zero.mpr fun f hf => by simp [(h f hf).1]
  have hresponse : effects.countP Effect.isResponse = 0 := List.countP_eq_zero.mpr fun f hf => by simp [(h f hf).2]
  simp [hcreate, hresponse]

/-- A step that neither starts nor ends a `create_answer` keeps the invariant. -/
private theorem answers_frame {l l' : SessionLoop κ} {effects : List Effect} (h : Answers l)
    (hd : l'.session.isDialer = l.session.isDialer) (ht : l'.trace = l.trace ++ effects)
    (he : ∀ f ∈ effects, f.unanswering) (ha : l'.answering ≤ l.answering)
    (hl : l'.session.pc.localDescription = l.session.pc.localDescription)
    (hs : l'.session.state = .connected → l.session.state = .connected ∨ l.session.pc.localDescription.isSome)
    (hc : ∀ t ∈ l'.tasks, (∃ t₀ ∈ l.tasks, t.coroutine.handler = t₀.coroutine.handler) ∨ ∃ c, t.coroutine.handler = .adding c) :
    Answers l' := by
  obtain ⟨hcreate, hresponse⟩ := countP_append_unanswering l.trace he
  have hserved := h.served
  refine ⟨hd.trans h.listener, ?_, ?_, ?_, ?_, ?_⟩
  · rw [ht, hcreate]
    exact h.started
  · rw [ht, hcreate, hresponse]
    omega
  · intro hsome
    rw [hl] at hsome
    obtain ⟨hzero, hone⟩ := h.described hsome
    rw [ht, hcreate]
    exact ⟨by omega, hone⟩
  · intro hconn
    rw [hl]
    rcases hs hconn with hs | hs
    · exact h.connected hs
    · exact hs
  · intro t htask
    rcases hc t htask with ⟨t₀, ht₀, heq⟩ | hadd
    · rw [heq]
      exact h.coroutines t₀ ht₀
    · exact Or.inr hadd

private theorem unanswering_of_callback {s s' : Session} {effects : List Effect} (h : Session.Callback s s' effects) :
    ∀ f ∈ effects, f.unanswering := by
  intro f hf
  rcases h.effects f hf with rfl | ⟨data, rfl⟩ | ⟨error, rfl⟩ | ⟨error, rfl⟩
  · exact ⟨rfl, rfl⟩
  · exact ⟨rfl, rfl⟩
  · exact ⟨rfl, rfl⟩
  · exact ⟨rfl, by simp [SignalingMessage.identifier]⟩

private theorem unanswering_of_negotiates {pc pc' : PeerConnection} {effects : List Effect}
    (h : Session.Negotiates pc pc' effects) : ∀ f ∈ effects, f.unanswering := by
  intro f hf
  rcases h.effects f hf with ⟨sdp, rfl⟩ | ⟨c, _, rfl⟩ <;> exact ⟨rfl, rfl⟩

private theorem answers_callback {l : SessionLoop κ} {s' : Session} {effects : List Effect} (h : Answers l)
    (hd : s'.isDialer = l.session.isDialer) (hc : Session.Callback l.session s' effects) :
    Answers (l.ran (s', effects)).loop := by
  have hle : (l.ran (s', effects)).loop.answering ≤ l.answering := Nat.le_refl _
  refine @answers_frame κ l (l.ran (s', effects)).loop effects h hd rfl (unanswering_of_callback hc) hle
    hc.pc.localDescription ?_ ?_
  · intro hconn
    rcases hc.state with hs | hs | ⟨_, hn⟩
    · exact Or.inl (hs ▸ hconn)
    · rw [show (l.ran (s', effects)).loop.session.state = .closed from hs] at hconn
      cases hconn
    · simp only [PeerConnection.negotiated, Bool.and_eq_true] at hn
      exact Or.inr hn.2
  · exact fun t ht => Or.inl ⟨t, ht, rfl⟩

private theorem answering_append (l : SessionLoop κ) (t : Task κ) (session : Session) (trace : List Effect) :
    SessionLoop.answering { session := session, tasks := l.tasks ++ [t], trace := trace } =
      l.answering + if t.coroutine.handler.isAnswering then 1 else 0 := by
  simp [answering, List.countP_append, List.countP_cons]

private theorem answers_call [Aiortc] {l : SessionLoop κ} {c : Call} {caller : κ} {seg : Segment} (h : Answers l)
    (hb : Session.Began l.session c seg) (he : Heard l (.call c caller)) : Answers (l.segment seg caller).loop := by
  have same : ∀ {session : Session} {effects : List Effect} {tasks : List (Task κ)},
      session.isDialer = l.session.isDialer → session.pc.localDescription = l.session.pc.localDescription →
      session.state = l.session.state → (∀ f ∈ effects, f.unanswering) →
      (tasks = l.tasks ∨ ∃ cand, tasks = l.tasks ++ [⟨.adding cand, caller⟩]) →
      Answers { session := session, tasks := tasks, trace := l.trace ++ effects } := by
    intro session effects tasks hd hl hs hf ht
    apply answers_frame h hd rfl hf _ hl (fun hconn => Or.inl (hs ▸ hconn))
    · rcases ht with rfl | ⟨cand, rfl⟩
      · exact fun t ht => Or.inl ⟨t, ht, rfl⟩
      · intro t ht
        rcases List.mem_append.mp ht with ht | ht
        · exact Or.inl ⟨t, ht, rfl⟩
        · obtain rfl := List.mem_singleton.mp ht
          exact Or.inr ⟨cand, rfl⟩
    · rcases ht with rfl | ⟨cand, rfl⟩
      · exact Nat.le_refl _
      · rw [answering_append]
        simp [Suspended.handler, Handler.isAnswering]
  cases hb with
  | ignored c => exact same rfl rfl rfl (by simp) (Or.inl rfl)
  | closes k error =>
    have hc := Session.close_callback l.session error false
    exact answers_callback h (@Session.close_move False l.session error false).identity.2.2 hc
  | start => exact he.elim
  | offer => exact he.elim
  | answer offer => exact he.elim
  | accept answer hs => exact he.elim
  | response k answer hs hd =>
    rw [h.listener] at hd
    cases hd
  | malformed k text hs hc => exact same rfl rfl rfl (by simp) (Or.inl rfl)
  | adds k text cand hc =>
    apply same rfl rfl rfl _ (Or.inr ⟨cand, rfl⟩)
    intro f hf
    obtain rfl := List.mem_singleton.mp hf
    exact ⟨rfl, rfl⟩
  | buffers k text cand hr hc => exact same rfl rfl rfl (by simp) (Or.inl rfl)
  | request k offer hs hd =>
    -- the first event of the session: nothing has been answered yet
    obtain ⟨htrace, htasks⟩ := he.resolve_left (fun hne => hne hs)
    have hnone : ¬ l.session.pc.localDescription.isSome := by
      intro hsome
      have hone := (h.described hsome).2
      simp [htrace] at hone
    refine ⟨h.listener, ?_, ?_, fun hsome => absurd hsome hnone, h.connected, ?_⟩
    · simp [segment, htrace, Effect.isCreateAnswer]
    · simp [segment, htrace, htasks, answering, Effect.isCreateAnswer, Effect.isResponse, Effect.isSignal, Suspended.handler,
        Handler.isAnswering]
    · intro t ht
      simp only [segment, htasks, List.nil_append, List.mem_singleton] at ht
      exact Or.inl ⟨offer, by rw [ht]; rfl⟩

private theorem answering_eraseIdx {l : SessionLoop κ} {index : Nat} {t : Task κ} (ht : l.tasks[index]? = some t) :
    (l.tasks.eraseIdx index).countP (·.coroutine.handler.isAnswering) +
      (if t.coroutine.handler.isAnswering then 1 else 0) = l.answering :=
  countP_eraseIdx (fun t : Task κ => t.coroutine.handler.isAnswering) ht

/-- What `_handle_request` does after its await: one CONNECTRESPONSE, and no other answer. -/
private theorem afterRequest_counts (s : Session) (sdp : Text) :
    (s.afterRequest sdp).effects.countP Effect.isCreateAnswer = 0 ∧
      (s.afterRequest sdp).effects.countP Effect.isResponse = 1 := by
  have hcandidates : ∀ (s : Session) cs, (s.sendCandidates cs).countP Effect.isCreateAnswer = 0 ∧
      (s.sendCandidates cs).countP Effect.isResponse = 0 := by
    intro s cs
    refine ⟨List.countP_eq_zero.mpr ?_, List.countP_eq_zero.mpr ?_⟩
    · intro f hf
      obtain ⟨c, _, rfl⟩ := List.mem_map.mp hf
      simp [Effect.isCreateAnswer]
    · intro f hf
      obtain ⟨c, _, rfl⟩ := List.mem_map.mp hf
      simp [SignalingMessage.identifier]
  simp only [Session.afterRequest, List.cons_append, List.countP_cons, List.countP_append, hcandidates,
    isResponse_serialize, List.countP_nil]
  exact ⟨rfl, rfl⟩

private theorem answers_resume {l : SessionLoop κ} {index : Nat} {t : Task κ} {r : Reply} {seg : Segment} (h : Answers l)
    (ht : l.tasks[index]? = some t) (hw : Session.Went l.session t.coroutine r seg) :
    Answers ({ l with tasks := l.tasks.eraseIdx index }.segment seg t.caller).loop := by
  have herase := answering_eraseIdx ht
  have hmem := List.mem_of_getElem? ht
  have hkept : ∀ t' ∈ l.tasks.eraseIdx index, (∃ t₀ ∈ l.tasks, t'.coroutine.handler = t₀.coroutine.handler) ∨
      ∃ c, t'.coroutine.handler = .adding c := fun t' ht' => Or.inl ⟨t', List.mem_of_mem_eraseIdx ht', rfl⟩
  have hle : (l.tasks.eraseIdx index).countP (fun t : Task κ => t.coroutine.handler.isAnswering) ≤ l.answering := by omega
  generalize hcoroutine : t.coroutine = c at hw
  cases hw with
  | raises c => exact answers_frame h rfl rfl (by simp) hle rfl Or.inl hkept
  | goes c c' sdp pc effects hc _ hpc =>
    have happend : (l.tasks.eraseIdx index ++ [(⟨c', t.caller⟩ : Task κ)]).countP
        (fun t => t.coroutine.handler.isAnswering) ≤ l.answering := by
      rw [List.countP_append, List.countP_singleton, hc, ← hcoroutine]
      omega
    refine answers_frame h rfl rfl (unanswering_of_negotiates hpc) happend hpc.localDescription Or.inl ?_
    intro t' ht'
    rcases List.mem_append.mp ht' with ht' | ht'
    · exact hkept t' ht'
    · obtain rfl := List.mem_singleton.mp ht'
      exact Or.inl ⟨t, hmem, by rw [hcoroutine]; exact hc⟩
  | applied handler answer a sdp pc effects hpc =>
    rcases h.coroutines t hmem with ⟨offer, hoffer⟩ | ⟨cand, hcand⟩
    · rw [hcoroutine] at hoffer; cases hoffer
    · rw [hcoroutine] at hcand; cases hcand
  | added cand sdp => exact answers_frame h rfl rfl (by simp) hle rfl Or.inl hkept
  | offered handler sdp s' hs' =>
    rcases h.coroutines t hmem with ⟨offer, hoffer⟩ | ⟨cand, hcand⟩
    · rw [hcoroutine] at hoffer; cases hoffer
    · rw [hcoroutine] at hcand; cases hcand
  | answered handler offer sdp s' hs' =>
    have hrequest : handler = .handleRequest := by
      rcases h.coroutines t hmem with ⟨o, ho⟩ | ⟨cand, hcand⟩
      · rw [hcoroutine] at ho; cases ho; rfl
      · rw [hcoroutine] at hcand; cases hcand
    subst hrequest
    -- the one `create_answer` has returned: its answer is the one response sent
    have hone : (l.tasks.eraseIdx index).countP (fun t : Task κ => t.coroutine.handler.isAnswering) + 1 = l.answering := by
      simpa [hcoroutine, Suspended.handler, Handler.isAnswering] using herase
    have hserved := h.served
    have hstarted := h.started
    obtain ⟨hcreate, hresponse⟩ := afterRequest_counts s' s'.pc.localSdp
    have hanswered : Effect.isCreateAnswer (.answered offer s'.pc.localSdp) = false ∧
        Effect.isResponse (.answered offer s'.pc.localSdp) = false := ⟨rfl, rfl⟩
    refine ⟨?_, ?_, ?_, ?_, ?_, fun t' ht' => h.coroutines t' (List.mem_of_mem_eraseIdx ht')⟩
    · simpa [hs', Session.afterRequest] using h.listener
    · simp only [segment_trace, List.countP_append, List.countP_cons, hcreate, hanswered]
      exact hstarted
    · simp only [segment_trace, List.countP_append, List.countP_cons, hcreate, hresponse, hanswered,
        Bool.false_eq_true, if_false]
      simp only [answering, segment, Session.afterRequest] at *
      omega
    · intro _
      simp only [segment_trace, List.countP_append, List.countP_cons, hcreate, hanswered, Bool.false_eq_true, if_false]
      simp only [answering, segment, Session.afterRequest] at *
      omega
    · intro hconn
      simp [Session.afterRequest] at hconn

/-- One event of a listener keeps the invariant. -/
theorem answers_step [Aiortc] (l : SessionLoop κ) (e : SessionEvent κ) (h : Answers l) (he : Heard l e) :
    Answers (l.next e) := by
  have hd := (l.next_identity e).2.2
  have hsteps := l.step_steps e
  simp only [next] at hd ⊢
  generalize l.step e = stepped at hd hsteps ⊢
  cases hsteps with
  | call c caller seg hb => exact answers_call h hb he
  | resume index reply t seg ht hw => exact answers_resume h ht hw
  | callback _ s' effects hc => exact answers_callback h hd hc

theorem answers_fresh (connectionId : Nat) (localId remoteId : NetworkId) (relayOnly : Bool) :
    Answers (fresh (Session.new connectionId localId remoteId false relayOnly) : SessionLoop κ) := by
  refine ⟨rfl, by simp [fresh], by simp [fresh, answering], ?_, by simp [fresh, Session.new], by simp [fresh]⟩
  intro hsome
  simp [fresh, Session.new, PeerConnection.new] at hsome

/-- Nothing raises inside `create_answer`. -/
def Replies (l : SessionLoop κ) : SessionEvent κ → Prop
  | .resume index .raised => ∀ t, l.tasks[index]? = some t → t.coroutine.handler.isAnswering = false
  | _ => True

/-- Every answer that was started has been sent, or still will be. -/
def Responds (l : SessionLoop κ) : Prop :=
  l.trace.countP Effect.isCreateAnswer ≤ l.trace.countP Effect.isResponse + l.answering

private theorem responds_frame {l l' : SessionLoop κ} {effects : List Effect} (h : Responds l)
    (ht : l'.trace = l.trace ++ effects) (he : ∀ f ∈ effects, f.unanswering) (ha : l.answering ≤ l'.answering) :
    Responds l' := by
  obtain ⟨hcreate, hresponse⟩ := countP_append_unanswering l.trace he
  simp only [Responds, ht, hcreate, hresponse] at h ⊢
  omega

private theorem responds_call [Aiortc] {l : SessionLoop κ} {c : Call} {caller : κ} {seg : Segment} (h : Responds l)
    (hl : Answers l) (hb : Session.Began l.session c seg) (he : Heard l (.call c caller)) :
    Responds (l.segment seg caller).loop := by
  have grows : ∀ t : Task κ, l.answering ≤ (l.tasks ++ [t]).countP (·.coroutine.handler.isAnswering) := fun t => by
    rw [List.countP_append]
    exact Nat.le_add_right _ _
  cases hb with
  | ignored c => exact responds_frame h rfl (by simp) (Nat.le_refl _)
  | closes k error =>
    exact responds_frame h rfl (unanswering_of_callback (Session.close_callback l.session error false)) (Nat.le_refl _)
  | start => exact he.elim
  | offer => exact he.elim
  | answer offer => exact he.elim
  | accept answer hs => exact he.elim
  | response k answer hs hd =>
    rw [hl.listener] at hd
    cases hd
  | malformed k text hs hc => exact responds_frame h rfl (by simp) (Nat.le_refl _)
  | adds k text cand hc =>
    refine responds_frame h rfl ?_ (grows _)
    intro f hf
    obtain rfl := List.mem_singleton.mp hf
    exact ⟨rfl, rfl⟩
  | buffers k text cand hr hc => exact responds_frame h rfl (by simp) (Nat.le_refl _)
  | request k offer hs hd =>
    have hanswering : (l.tasks ++ [(⟨.answering .handleRequest offer .setRemoteDescription, caller⟩ : Task κ)]).countP
        (fun t => t.coroutine.handler.isAnswering) = l.answering + 1 := by
      rw [List.countP_append]
      rfl
    have hcreate : (l.trace ++ [Effect.createAnswer offer]).countP Effect.isCreateAnswer = l.trace.countP Effect.isCreateAnswer + 1 := by
      rw [List.countP_append]
      rfl
    have hresponse : (l.trace ++ [Effect.createAnswer offer]).countP Effect.isResponse = l.trace.countP Effect.isResponse := by
      rw [List.countP_append]
      rfl
    show (l.trace ++ [Effect.createAnswer offer]).countP Effect.isCreateAnswer ≤ (l.trace ++ [Effect.createAnswer offer]).countP Effect.isResponse +
      (l.tasks ++ [_]).countP _
    rw [hcreate, hresponse, hanswering, ← Nat.add_assoc]
    exact Nat.add_le_add_right h 1

private theorem responds_resume {l : SessionLoop κ} {index : Nat} {t : Task κ} {r : Reply} {seg : Segment} (h : Responds l)
    (hl : Answers l) (ht : l.tasks[index]? = some t) (hw : Session.Went l.session t.coroutine r seg)
    (hr : Replies l (.resume index r)) : Responds ({ l with tasks := l.tasks.eraseIdx index }.segment seg t.caller).loop := by
  have herase := answering_eraseIdx ht
  have hmem := List.mem_of_getElem? ht
  have hcoroutines := hl.coroutines t hmem
  generalize hcoroutine : t.coroutine = c at hw hcoroutines
  rw [hcoroutine] at herase
  cases hw with
  | raises c =>
    have hnot := hr t ht
    rw [hcoroutine] at hnot
    rw [hnot, if_neg (by decide), Nat.add_zero] at herase
    exact responds_frame h rfl (by simp) (Nat.le_of_eq herase.symm)
  | goes c c' sdp pc effects hc _ hpc =>
    refine responds_frame h rfl (unanswering_of_negotiates hpc) (Nat.le_of_eq ?_)
    simp only [segment, answering, List.countP_append, List.countP_singleton, hc]
    exact herase.symm
  | applied handler answer a sdp pc effects hpc => exact responds_frame h rfl (unanswering_of_negotiates hpc) (Nat.le_of_eq herase.symm)
  | added cand sdp => exact responds_frame h rfl (by simp) (Nat.le_of_eq herase.symm)
  | offered handler sdp s' hs' =>
    rcases hcoroutines with ⟨offer, hoffer⟩ | ⟨cand, hcand⟩
    · cases hoffer
    · cases hcand
  | answered handler offer sdp s' hs' =>
    have hrequest : handler = .handleRequest := by
      rcases hcoroutines with ⟨o, ho⟩ | ⟨cand, hcand⟩
      · cases ho
        rfl
      · cases hcand
    subst hrequest
    obtain ⟨hcreate, hresponse⟩ := afterRequest_counts s' s'.pc.localSdp
    have hanswered : Effect.isCreateAnswer (.answered offer s'.pc.localSdp) = false ∧
        Effect.isResponse (.answered offer s'.pc.localSdp) = false := ⟨rfl, rfl⟩
    have hone : (l.tasks.eraseIdx index).countP (fun t : Task κ => t.coroutine.handler.isAnswering) + 1 = l.answering := herase
    simp only [Responds, segment_trace, List.countP_append, List.countP_cons, hcreate, hresponse, hanswered, Bool.false_eq_true,
      if_false] at h ⊢
    simp only [answering, segment, Session.afterRequest] at *
    omega

/-- Where nothing raises inside `create_answer`, a listener answers what it started to answer. -/
theorem responds_step [Aiortc] (l : SessionLoop κ) (e : SessionEvent κ) (h : Responds l) (hl : Answers l) (he : Heard l e)
    (hr : Replies l e) : Responds (l.next e) := by
  have hsteps := l.step_steps e
  simp only [next]
  generalize l.step e = stepped at hsteps ⊢
  cases hsteps with
  | call c caller seg hb => exact responds_call h hl hb he
  | resume index reply t seg ht hw => exact responds_resume h hl ht hw hr
  | callback _ s' effects hc => exact responds_frame h rfl (unanswering_of_callback hc) (Nat.le_refl _)

/-! ### After the connection -/

/-- Since `l₀`, in which it was connected, the listener has stayed so or closed, and armed no timer. -/
structure Settled (l₀ l : SessionLoop κ) : Prop where
  answers : Answers l
  ended : l.answering = 0
  state : l.session.state = .connected ∨ l.session.state = .closed
  unarmed : ∃ rest, l.trace = l₀.trace ++ rest ∧ ∀ f ∈ rest, ∀ error, f ≠ .armed error

theorem settled_connected {l : SessionLoop κ} (h : Answers l) (hs : l.session.state = .connected) : Settled l l :=
  ⟨h, (h.described (h.connected hs)).1, Or.inl hs, [], by simp, by simp⟩

/-- One event keeps a listener settled: no coroutine is left that could move it. -/
theorem settled_step [Aiortc] {l₀ : SessionLoop κ} (l : SessionLoop κ) (e : SessionEvent κ) (h : Settled l₀ l)
    (he : Heard l e) : Settled l₀ (l.next e) := by
  have hnext := answers_step l e h.answers he
  have hidle : l.session.state ≠ .idle := by
    rcases h.state with hs | hs <;> rw [hs] <;> simp
  obtain ⟨rest, htrace, hrest⟩ := h.unarmed
  have grows : ∀ {l' : SessionLoop κ} {effects : List Effect}, l' = l.next e → l'.answering = 0 →
      (l'.session.state = .connected ∨ l'.session.state = .closed) → l'.trace = l.trace ++ effects →
      (∀ f ∈ effects, ∀ error, f ≠ .armed error) → Settled l₀ (l.next e) := by
    rintro l' effects rfl hended hstate heffects hunarmed
    refine ⟨hnext, hended, hstate, rest ++ effects, by rw [heffects, htrace, List.append_assoc], ?_⟩
    intro f hf
    rcases List.mem_append.mp hf with hf | hf
    · exact hrest f hf
    · exact hunarmed f hf
  have runs : ∀ {s' : Session} {effects : List Effect} {tasks : List (Task κ)},
      { session := s', tasks := tasks, trace := l.trace ++ effects } = l.next e → answering ⟨s', tasks, []⟩ = 0 →
      Session.Callback l.session s' effects → Settled l₀ (l.next e) := by
    intro s' effects tasks heq hended hc
    apply grows heq hended _ rfl
    · intro f hf error
      rcases hc.effects f hf with rfl | ⟨data, rfl⟩ | ⟨error', rfl⟩ | ⟨error', rfl⟩ <;> simp
    · rcases hc.state with hs | hs | ⟨hs, _⟩
      · exact (congrArg (fun s => s = .connected ∨ s = .closed) hs).mpr h.state
      · exact Or.inr hs
      · exact Or.inl hs
  have hended := h.ended
  have hsteps := l.step_steps e
  simp only [next] at grows runs ⊢
  generalize l.step e = stepped at grows runs hsteps ⊢
  cases hsteps with
  | callback _ s' effects hc => exact runs rfl hended hc
  | call c caller seg hb =>
    cases hb with
    | ignored c => exact grows rfl hended h.state rfl (by simp)
    | closes k error => exact runs rfl hended (Session.close_callback l.session error false)
    | start => exact he.elim
    | offer => exact he.elim
    | answer offer => exact he.elim
    | accept answer hs => exact he.elim
    | request k offer hs hd => exact absurd hs hidle
    | response k answer hs hd =>
      rw [h.answers.listener] at hd
      cases hd
    | malformed k text hs hc => exact grows rfl hended h.state rfl (by simp)
    | adds k text cand hc =>
      refine grows rfl ?_ h.state rfl (by simp)
      simpa [segment, answering_append, Suspended.handler, Handler.isAnswering] using hended
    | buffers k text cand hr hc => exact grows rfl hended h.state rfl (by simp)
  | resume index reply t seg ht hw =>
    have herase := answering_eraseIdx ht
    have hmem := List.mem_of_getElem? ht
    have hadding : ∃ cand, t.coroutine.handler = .adding cand := by
      rcases h.answers.coroutines t hmem with ⟨offer, ho⟩ | hadd
      · simp [ho, Handler.isAnswering, hended] at herase
      · exact hadd
    obtain ⟨cand, hcand⟩ := hadding
    have hleft : answering ({ l with tasks := l.tasks.eraseIdx index } : SessionLoop κ) = 0 := by
      simp only [answering] at herase hended ⊢
      omega
    generalize hcoroutine : t.coroutine = c at hw hcand
    cases hw with
    | raises c => exact grows rfl hleft h.state rfl (by simp)
    | goes c c' sdp pc effects hc _ hpc =>
      refine grows rfl ?_ h.state rfl ?_
      · have hnot : c'.handler.isAnswering = false := by rw [hc, hcand]; rfl
        simp only [segment, answering, List.countP_append, List.countP_singleton, hnot, Bool.false_eq_true, if_false] at *
        omega
      · intro f hf error
        rcases hpc.effects f hf with ⟨sdp', rfl⟩ | ⟨c₀, _, rfl⟩ <;> simp
    | applied handler answer a sdp pc effects hpc => cases hcand
    | added cand sdp => exact grows rfl hleft h.state rfl (by simp)
    | offered handler sdp s' hs' => cases hcand
    | answered handler offer sdp s' hs' => cases hcand

end SessionLoop
end NetherNet
