import NetherNet.Session.Answering

/-! A session whose one offer is started with it sends one request and applies one answer. -/
namespace NetherNet
variable {κ : Type}

def Effect.isApplied : Effect → Bool
  | .setRemoteAnswer _ => true
  | _ => false

/-- A CONNECTREQUEST is sent. -/
def Effect.isRequest (f : Effect) : Bool := f.isSignal .connectRequest

/-- Neither a request nor the application of an answer. -/
def Effect.undialing (f : Effect) : Prop := f.isRequest = false ∧ f.isApplied = false

def Handler.isOffering : Handler → Bool
  | .offering _ => true
  | _ => false

@[simp] theorem isRequest_serialize (m : SignalingMessage) :
    Effect.isRequest (.sendSignal m.serialize) = decide (m.identifier = .connectRequest) := isSignal_serialize _ m

namespace SessionLoop

/-- The suspended coroutines inside `create_offer`. -/
def offering (l : SessionLoop κ) : Nat := l.tasks.countP (·.coroutine.handler.isOffering)

/-- The answers the session is still waiting for. -/
def awaited (s : Session) : Nat := if s.state = .offerSent then 1 else 0

/-- One request is sent and one answer applied at most, in the past or still to come. -/
structure Dials (l : SessionLoop κ) : Prop where
  requests : l.trace.countP Effect.isRequest + l.offering ≤ 1
  applies : l.trace.countP Effect.isApplied + awaited l.session + l.offering ≤ 1

/-- Only signals are handed to it, once it is started. -/
def Signalled : SessionEvent κ → Prop
  | .call (.handleSignal _) _ => True
  | .call _ _ => False
  | _ => True

theorem countP_undialing {effects : List Effect} (h : ∀ f ∈ effects, f.undialing) :
    effects.countP Effect.isRequest = 0 ∧ effects.countP Effect.isApplied = 0 :=
  ⟨List.countP_eq_zero.mpr fun f hf => by simp [(h f hf).1], List.countP_eq_zero.mpr fun f hf => by simp [(h f hf).2]⟩

/-- What a step uses up of what is still to come. -/
private theorem dials_spent {l l' : SessionLoop κ} {effects : List Effect} (h : Dials l) (ht : l'.trace = l.trace ++ effects)
    (hr : effects.countP Effect.isRequest + l'.offering ≤ l.offering)
    (ha : effects.countP Effect.isApplied + awaited l'.session + l'.offering ≤ awaited l.session + l.offering) : Dials l' := by
  have hrequests := h.requests
  have happlies := h.applies
  refine ⟨?_, ?_⟩
  · rw [ht, List.countP_append]
    omega
  · rw [ht, List.countP_append]
    omega

/-- A step that sends no request, applies no answer and starts no offer keeps the invariant. -/
private theorem dials_frame {l l' : SessionLoop κ} {effects : List Effect} (h : Dials l) (ht : l'.trace = l.trace ++ effects)
    (he : ∀ f ∈ effects, f.undialing) (ho : l'.offering ≤ l.offering) (hs : awaited l'.session ≤ awaited l.session) :
    Dials l' := by
  obtain ⟨hrequest, happlied⟩ := countP_undialing he
  exact dials_spent h ht (by omega) (by omega)

theorem undialing_of_callback {s s' : Session} {effects : List Effect} (h : Session.Callback s s' effects) :
    ∀ f ∈ effects, f.undialing := by
  intro f hf
  rcases h.effects f hf with rfl | ⟨data, rfl⟩ | ⟨error, rfl⟩ | ⟨error, rfl⟩
  · exact ⟨rfl, rfl⟩
  · exact ⟨rfl, rfl⟩
  · exact ⟨rfl, rfl⟩
  · exact ⟨by simp [SignalingMessage.identifier], rfl⟩

theorem undialing_of_negotiates {pc pc' : PeerConnection} {effects : List Effect}
    (h : Session.Negotiates pc pc' effects) : ∀ f ∈ effects, f.undialing := by
  intro f hf
  rcases h.effects f hf with ⟨sdp, rfl⟩ | ⟨c, _, rfl⟩ <;> exact ⟨rfl, rfl⟩

private theorem dials_callback {l : SessionLoop κ} {s' : Session} {effects : List Effect} (h : Dials l)
    (hc : Session.Callback l.session s' effects) : Dials (l.ran (s', effects)).loop := by
  have hs : awaited s' ≤ awaited l.session := by
    rcases hc.state with hs | hs | ⟨hs, _⟩ <;> simp [awaited, hs]
  exact @dials_frame κ l (l.ran (s', effects)).loop effects h rfl (undialing_of_callback hc) (Nat.le_refl _) hs

private theorem offering_append (l : SessionLoop κ) (t : Task κ) :
    (l.tasks ++ [t]).countP (·.coroutine.handler.isOffering) =
      l.offering + if t.coroutine.handler.isOffering then 1 else 0 := by
  simp [offering, List.countP_append, List.countP_cons]

private theorem dials_call [Aiortc] {l : SessionLoop κ} {c : Call} {caller : κ} {seg : Segment} (h : Dials l)
    (hb : Session.Began l.session c seg) (he : Signalled (.call c caller)) : Dials (l.segment seg caller).loop := by
  cases hb with
  | ignored c => exact dials_frame h rfl (by simp) (Nat.le_refl _) (Nat.le_refl _)
  | closes k error => exact dials_callback h (Session.close_callback l.session error false)
  | start => exact he.elim
  | offer => exact he.elim
  | answer offer => exact he.elim
  | accept answer hs => exact he.elim
  | request k offer hs hd =>
    refine dials_frame h rfl ?_ (Nat.le_of_eq (offering_append l _)) (Nat.le_refl _)
    intro f hf
    obtain rfl := List.mem_singleton.mp hf
    exact ⟨rfl, rfl⟩
  | response k answer hs hd =>
    -- the session stops waiting for the answer that it applies
    have hawaited : awaited l.session = 1 := by simp [awaited, hs]
    refine dials_spent h (segment_trace _ _ _) (Nat.le_of_eq ((Nat.zero_add _).trans (offering_append l _))) ?_
    have hspent : ∀ error, awaited ({ l.session with state := .negotiating }.armTimeout error) = 0 := fun error => by
      simp [awaited]
    rw [hawaited, segment_session, hspent]
    exact Nat.add_le_add_left (Nat.le_of_eq (offering_append l _)) 1
  | malformed k text hs hc => exact dials_frame h rfl (by simp) (Nat.le_refl _) (Nat.le_refl _)
  | adds k text cand hc =>
    refine dials_frame h rfl ?_ (Nat.le_of_eq (offering_append l _)) (Nat.le_refl _)
    intro f hf
    obtain rfl := List.mem_singleton.mp hf
    exact ⟨rfl, rfl⟩
  | buffers k text cand hr hc => exact dials_frame h rfl (by simp) (Nat.le_refl _) (Nat.le_refl _)

private theorem undialing_candidates (s : Session) (candidates : List Text) :
    ∀ f ∈ s.sendCandidates candidates, f.undialing := by
  intro f hf
  obtain ⟨c, _, rfl⟩ := List.mem_map.mp hf
  exact ⟨by simp [SignalingMessage.identifier], rfl⟩

private theorem afterStart_counts (s : Session) (sdp : Text) :
    (s.afterStart sdp).effects.countP Effect.isRequest = 1 ∧ (s.afterStart sdp).effects.countP Effect.isApplied = 0 := by
  have hcandidates : ∀ (s : Session) cs, (s.sendCandidates cs).countP Effect.isRequest = 0 ∧
      (s.sendCandidates cs).countP Effect.isApplied = 0 := fun s cs => countP_undialing (undialing_candidates s cs)
  simp only [Session.afterStart, List.cons_append, List.countP_cons, List.countP_append, hcandidates,
    isRequest_serialize, List.countP_nil]
  exact ⟨rfl, rfl⟩

private theorem dials_resume {l : SessionLoop κ} {index : Nat} {t : Task κ} {r : Reply} {seg : Segment} (h : Dials l)
    (ht : l.tasks[index]? = some t) (hw : Session.Went l.session t.coroutine r seg) :
    Dials ({ l with tasks := l.tasks.eraseIdx index }.segment seg t.caller).loop := by
  have herase := countP_eraseIdx (fun t : Task κ => t.coroutine.handler.isOffering) ht
  have hle : (l.tasks.eraseIdx index).countP (fun t : Task κ => t.coroutine.handler.isOffering) ≤ l.offering := by
    simp only [offering]
    omega
  generalize hcoroutine : t.coroutine = c at hw herase
  cases hw with
  | raises c => exact dials_frame h rfl (by simp) hle (Nat.le_refl _)
  | goes c c' sdp pc effects hc _ hpc =>
    refine dials_frame h rfl (undialing_of_negotiates hpc) ?_ (Nat.le_refl _)
    simp only [segment, offering, List.countP_append, List.countP_singleton, hc]
    omega
  | applied handler answer a sdp pc effects hpc =>
    exact dials_frame h rfl (undialing_of_negotiates hpc) hle (Nat.le_refl _)
  | added cand sdp => exact dials_frame h rfl (by simp) hle (Nat.le_refl _)
  | offered handler sdp s' hs' =>
    -- the one `create_offer` has returned: the request is sent, and its answer awaited
    have hone : (l.tasks.eraseIdx index).countP (fun t : Task κ => t.coroutine.handler.isOffering) + 1 = l.offering := herase
    cases handler with
    | start =>
      obtain ⟨hrequest, happlied⟩ := afterStart_counts s' s'.pc.localSdp
      have hawaited : awaited (s'.afterStart s'.pc.localSdp).session = 1 := by simp [Session.afterStart, awaited]
      refine dials_spent h (segment_trace _ _ _) (Nat.le_of_eq ?_) ?_
      · rw [hrequest, Nat.add_comm]
        exact hone
      · rw [happlied, segment_session, hawaited, Nat.zero_add, Nat.add_comm]
        exact Nat.le_trans (Nat.le_of_eq hone) (Nat.le_add_left _ _)
    | offer =>
      have hawaited : awaited (s'.afterOffer s'.pc.localSdp).session = 1 := by simp [Session.afterOffer, awaited]
      refine dials_spent h (segment_trace _ _ _) (Nat.le_trans (Nat.le_of_eq (Nat.zero_add _)) hle) ?_
      rw [segment_session, hawaited, show (s'.afterOffer s'.pc.localSdp).effects.countP Effect.isApplied = 0 from rfl,
        Nat.zero_add, Nat.add_comm]
      exact Nat.le_trans (Nat.le_of_eq hone) (Nat.le_add_left _ _)
  | answered handler offer sdp s' hs' =>
    cases handler with
    | answer =>
      refine @dials_frame κ l _ _ h (segment_trace _ _ _) ?_ hle ?_
      · intro f hf
        rcases List.mem_cons.mp hf with rfl | hf
        · exact ⟨rfl, rfl⟩
        · obtain rfl := List.mem_singleton.mp hf
          exact ⟨rfl, rfl⟩
      · simp [segment, Session.afterAnswer, awaited]
    | handleRequest =>
      refine @dials_frame κ l _ _ h (segment_trace _ _ _) ?_ hle ?_
      · intro f hf
        rcases List.mem_cons.mp hf with rfl | hf
        · exact ⟨rfl, rfl⟩
        · rcases List.mem_append.mp hf with hf | hf
          · rcases List.mem_cons.mp hf with rfl | hf
            · exact ⟨by simp [SignalingMessage.identifier], rfl⟩
            · exact undialing_candidates _ _ f hf
          · obtain rfl := List.mem_singleton.mp hf
            exact ⟨rfl, rfl⟩
      · simp [segment, Session.afterRequest, awaited]

theorem dials_step [Aiortc] (l : SessionLoop κ) (e : SessionEvent κ) (h : Dials l) (he : Signalled e) : Dials (l.next e) := by
  have hsteps := l.step_steps e
  simp only [next]
  generalize l.step e = stepped at hsteps ⊢
  cases hsteps with
  | call c caller seg hb => exact dials_call h hb he
  | resume index reply t seg ht hw => exact dials_resume h ht hw
  | callback _ s' effects hc => exact dials_callback h hc

/-- The first call of the manager on a session it has created. -/
theorem dials_started [Aiortc] (connectionId : Nat) (localId remoteId : NetworkId) (isDialer relayOnly : Bool) (caller : κ) :
    Dials ((fresh (Session.new connectionId localId remoteId isDialer relayOnly)).next (.call .start caller)) := by
  exact ⟨Nat.le_refl _, Nat.le_refl _⟩

end SessionLoop
end NetherNet
