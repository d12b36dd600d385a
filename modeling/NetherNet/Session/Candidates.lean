import NetherNet.Session.Dialing

/-! The candidates of a session: every one it took is handed to aiortc once, or waits
in the buffer of its peer connection until the remote description is set. -/
namespace NetherNet
variable {κ : Type}

/-- A call that will set the remote description. -/
def Effect.isSupply : Effect → Bool
  | .createAnswer _ | .setRemoteAnswer _ => true
  | _ => false

def Effect.candidate : Effect → Option Candidate
  | .addIceCandidate c => some c
  | _ => none

/-- Suspended in `setRemoteDescription`. -/
def Suspended.describing : Suspended → Bool
  | .answering _ _ .setRemoteDescription | .applying _ _ .setRemoteDescription => true
  | _ => false

/-- The place of a suspended `_flush_remote_candidates`. -/
def Suspended.place : Suspended → Option Nat
  | .answering _ _ (.flush index) | .applying _ _ (.flush index) => some index
  | _ => none

/-- No candidate is handed to aiortc before `setRemoteDescription` has completed. -/
def Ordered (trace : List Effect) : Prop :=
  ∀ before c after, trace = before ++ .addIceCandidate c :: after → ∃ sdp, .remoteDescription sdp ∈ before

private theorem ordered_append {trace effects : List Effect} (h : Ordered trace)
    (he : ∀ before c after, effects = before ++ .addIceCandidate c :: after →
      (∃ sdp, .remoteDescription sdp ∈ trace) ∨ ∃ sdp, .remoteDescription sdp ∈ before) : Ordered (trace ++ effects) := by
  intro before c after heq
  rcases List.append_eq_append_iff.mp heq with ⟨more, rfl, heffects⟩ | ⟨more, rfl, hmore⟩
  · rcases he more c after heffects with ⟨sdp, hsdp⟩ | ⟨sdp, hsdp⟩
    · exact ⟨sdp, List.mem_append_left _ hsdp⟩
    · exact ⟨sdp, List.mem_append_right _ hsdp⟩
  · cases more with
    | nil =>
      rcases he [] c after hmore.symm with ⟨sdp, hsdp⟩ | ⟨sdp, hsdp⟩
      · exact ⟨sdp, by simpa using hsdp⟩
      · cases hsdp
    | cons f more =>
      cases hmore
      exact h before c more rfl

namespace SessionLoop

/-- The suspended calls of `setRemoteDescription`. -/
def describing (l : SessionLoop κ) : Nat := l.tasks.countP (·.coroutine.describing)

/-- The places of the suspended flushes. -/
def places (l : SessionLoop κ) : List Nat := l.tasks.filterMap (·.coroutine.place)

/-- The candidates handed to `addIceCandidate`. -/
def added (l : SessionLoop κ) : List Candidate := l.trace.filterMap Effect.candidate

/-- The candidate that an open session takes. -/
def takes [Aiortc] : SessionEvent κ → List Candidate
  | .call (.handleSignal (.candidateAdd _ text)) _ => (PeerConnection.candidateFromMessage text).toList
  | _ => []

/-- No aiortc call raises inside `create_answer` or `set_remote_answer`, but for the last
candidate that the latter flushes. -/
def Endures (l : SessionLoop κ) : SessionEvent κ → Prop
  | .resume index .raised => ∀ t, l.tasks[index]? = some t →
      match t.coroutine with
      | .answering _ _ _ | .applying _ _ .setRemoteDescription => False
      | .applying _ _ (.flush i) => i + 1 = l.session.pc.pendingRemoteCandidates.length
      | _ => True
  | _ => True

/-- One turn of a flush over the buffered candidates. -/
inductive Turns (pending : List Candidate) (index : Nat) : List Effect → Option Nat → List Candidate → Prop where
  | hands (c : Candidate) (h : pending[index]? = some c) : Turns pending index [.addIceCandidate c] (some index) pending
  | clears (h : pending.length ≤ index) : Turns pending index [] none []

/-- What a step does about the candidates. -/
inductive Posts (l l' : SessionLoop κ) : List Candidate → Prop where
  | rests (effects : List Effect) (ht : l'.trace = l.trace ++ effects)
      (he : ∀ f ∈ effects, f.isSupply = false ∧ f.candidate = none)
      (hp : l'.session.pc.pendingRemoteCandidates = l.session.pc.pendingRemoteCandidates)
      (hs : l'.session.pc.remoteDescriptionSet = l.session.pc.remoteDescriptionSet)
      (hd : l'.describing = l.describing) (hplaces : l'.places.Perm l.places) : Posts l l' []
  | supplies (notice : List Effect) (f : Effect) (ht : l'.trace = l.trace ++ (notice ++ [f]))
      (he : ∀ f ∈ notice, f.isSupply = false ∧ f.candidate = none) (hf : f.isSupply = true)
      (hside : f.isApplied = l.session.isDialer)
      (hp : l'.session.pc.pendingRemoteCandidates = l.session.pc.pendingRemoteCandidates)
      (hs : l'.session.pc.remoteDescriptionSet = l.session.pc.remoteDescriptionSet)
      (hd : l'.describing = l.describing + 1) (hplaces : l'.places.Perm l.places) : Posts l l' []
  | buffers (c : Candidate) (ht : l'.trace = l.trace) (hset : l.session.pc.remoteDescriptionSet = false)
      (hp : l'.session.pc.pendingRemoteCandidates = l.session.pc.pendingRemoteCandidates ++ [c])
      (hs : l'.session.pc.remoteDescriptionSet = false)
      (hd : l'.describing = l.describing) (hplaces : l'.places.Perm l.places) : Posts l l' [c]
  | adds (c : Candidate) (ht : l'.trace = l.trace ++ [.addIceCandidate c]) (hset : l.session.pc.remoteDescriptionSet = true)
      (hp : l'.session.pc.pendingRemoteCandidates = l.session.pc.pendingRemoteCandidates)
      (hs : l'.session.pc.remoteDescriptionSet = true)
      (hd : l'.describing = l.describing) (hplaces : l'.places.Perm l.places) : Posts l l' [c]
  | describes (sdp : Text) (effects : List Effect) (place : Option Nat)
      (ht : l'.trace = l.trace ++ (.remoteDescription sdp :: effects))
      (hturn : Turns l.session.pc.pendingRemoteCandidates 0 effects place l'.session.pc.pendingRemoteCandidates)
      (hs : l'.session.pc.remoteDescriptionSet = true)
      (hd : l'.describing + 1 = l.describing) (hplaces : l'.places.Perm (place.toList ++ l.places)) : Posts l l' []
  | flushes (index : Nat) (rest : List Nat) (effects : List Effect) (place : Option Nat) (ht : l'.trace = l.trace ++ effects)
      (hturn : Turns l.session.pc.pendingRemoteCandidates (index + 1) effects place l'.session.pc.pendingRemoteCandidates)
      (hs : l'.session.pc.remoteDescriptionSet = l.session.pc.remoteDescriptionSet) (hd : l'.describing = l.describing)
      (hat : l.places.Perm (index :: rest)) (hplaces : l'.places.Perm (place.toList ++ rest)) : Posts l l' []
  | stops (index : Nat) (rest : List Nat) (ht : l'.trace = l.trace)
      (hlast : index + 1 = l.session.pc.pendingRemoteCandidates.length)
      (hp : l'.session.pc.pendingRemoteCandidates = l.session.pc.pendingRemoteCandidates)
      (hs : l'.session.pc.remoteDescriptionSet = l.session.pc.remoteDescriptionSet) (hd : l'.describing = l.describing)
      (hat : l.places.Perm (index :: rest)) (hplaces : l'.places.Perm rest) : Posts l l' []

/-! ### Every step is one of these -/

private theorem describing_left {l : SessionLoop κ} {index : Nat} {t : Task κ} (ht : l.tasks[index]? = some t) :
    (l.tasks.eraseIdx index).countP (·.coroutine.describing) + (if t.coroutine.describing then 1 else 0) = l.describing :=
  countP_eraseIdx (fun t : Task κ => t.coroutine.describing) ht

private theorem places_left {l : SessionLoop κ} {index : Nat} {t : Task κ} (ht : l.tasks[index]? = some t) :
    l.places.Perm (t.coroutine.place.toList ++ (l.tasks.eraseIdx index).filterMap (·.coroutine.place)) := by
  have hperm := (perm_eraseIdx ht).symm.filterMap (·.coroutine.place)
  cases hplace : t.coroutine.place with
  | none => rwa [List.filterMap_cons_none (f := fun t : Task κ => t.coroutine.place) hplace] at hperm
  | some i => rwa [List.filterMap_cons_some (f := fun t : Task κ => t.coroutine.place) hplace] at hperm

/-- A segment that has nothing to do with descriptions and buffered candidates. -/
structure Beside (s : Session) (seg : Segment) : Prop where
  effects : ∀ f ∈ seg.effects, f.isSupply = false ∧ f.candidate = none
  pending : seg.session.pc.pendingRemoteCandidates = s.pc.pendingRemoteCandidates
  remote : seg.session.pc.remoteDescriptionSet = s.pc.remoteDescriptionSet
  flow : ∀ c, seg.flow = .suspended c → c.describing = false ∧ c.place = none

private theorem raised_beside (s : Session) : Beside s ⟨s, [], .raised⟩ := ⟨by simp, rfl, rfl, by simp⟩

private theorem signals_quiet (s : Session) (message : Text) (candidates : List Text) (error : ErrorCode) :
    ∀ f ∈ .sendSignal message :: s.sendCandidates candidates ++ [.armed error], f.isSupply = false ∧ f.candidate = none := by
  intro f hf
  rcases List.mem_append.mp hf with hf | hf
  · rcases List.mem_cons.mp hf with rfl | hf
    · exact ⟨rfl, rfl⟩
    · obtain ⟨c, _, rfl⟩ := List.mem_map.mp hf
      exact ⟨rfl, rfl⟩
  · obtain rfl := List.mem_singleton.mp hf
    exact ⟨rfl, rfl⟩

private theorem offering_beside (s : Session) (h : Offering) (a : OfferAwait) (sdp : Text) :
    Beside s (s.offering h (s.pc.resumeOffer a (.ok sdp))) := by
  cases a with
  | createOffer => exact ⟨by simp [Session.offering, PeerConnection.resumeOffer], rfl, rfl, fun c hc => Flow.suspended.inj hc ▸ ⟨rfl, rfl⟩⟩
  | setLocalDescription =>
    cases h with
    | start =>
      exact ⟨signals_quiet _ _ _ _, by simp [Session.offering, PeerConnection.resumeOffer, Session.afterStart],
        by simp [Session.offering, PeerConnection.resumeOffer, Session.afterStart], fun c hc => by cases hc⟩
    | offer =>
      refine ⟨?_, by simp [Session.offering, PeerConnection.resumeOffer, Session.afterOffer],
        by simp [Session.offering, PeerConnection.resumeOffer, Session.afterOffer], fun c hc => by cases hc⟩
      simp [Session.offering, PeerConnection.resumeOffer, Session.afterOffer, Effect.isSupply, Effect.candidate]

private theorem answered_beside (s : Session) (h : Answering) (offer sdp : Text) :
    Beside s (s.answering h offer (s.pc.resumeAnswer offer .setLocalDescription (.ok sdp))) := by
  cases h with
  | answer =>
    refine ⟨?_, by simp [Session.answering, PeerConnection.resumeAnswer, Session.afterAnswer],
      by simp [Session.answering, PeerConnection.resumeAnswer, Session.afterAnswer], fun c hc => by cases hc⟩
    simp [Session.answering, PeerConnection.resumeAnswer, Session.afterAnswer, Effect.isSupply, Effect.candidate]
  | handleRequest =>
    refine ⟨?_, by simp [Session.answering, PeerConnection.resumeAnswer, Session.afterRequest],
      by simp [Session.answering, PeerConnection.resumeAnswer, Session.afterRequest], fun c hc => by cases hc⟩
    exact List.forall_mem_cons.mpr ⟨⟨rfl, rfl⟩, signals_quiet _ _ _ _⟩

/-- Such a segment of a coroutine that is neither in `setRemoteDescription` nor in a flush. -/
private theorem posts_beside {l : SessionLoop κ} {index : Nat} {t : Task κ} {seg : Segment} (ht : l.tasks[index]? = some t)
    (hd : t.coroutine.describing = false) (hplace : t.coroutine.place = none) (h : Beside l.session seg) :
    Posts l ({ l with tasks := l.tasks.eraseIdx index }.segment seg t.caller).loop [] := by
  have hdescribing := describing_left ht
  have hplaces := places_left ht
  rw [hd, if_neg (by decide), Nat.add_zero] at hdescribing
  rw [hplace, Option.toList_none, List.nil_append] at hplaces
  refine .rests seg.effects (segment_trace _ _ _) h.effects (by simpa using h.pending) (by simpa using h.remote) ?_ ?_
  · simp only [describing, segment_tasks]
    cases hflow : seg.flow with
    | suspended c => simpa [(h.flow c hflow).1, describing] using hdescribing
    | returned value => exact hdescribing
    | raised => exact hdescribing
  · simp only [places, segment_tasks]
    cases hflow : seg.flow with
    | suspended c => simpa [(h.flow c hflow).2, places] using hplaces.symm
    | returned value => exact hplaces.symm
    | raised => exact hplaces.symm

/-- Where a flush goes on, and what it leaves buffered. -/
private theorem flushFrom_turns (pc : PeerConnection) (index : Nat) :
    Turns pc.pendingRemoteCandidates index (pc.flushFrom index).2.1 (pc.flushFrom index).2.2
      (pc.flushFrom index).1.pendingRemoteCandidates ∧
    (pc.flushFrom index).1.remoteDescriptionSet = pc.remoteDescriptionSet := by
  unfold PeerConnection.flushFrom
  cases h : pc.pendingRemoteCandidates[index]? with
  | some c => exact ⟨.hands c h, rfl⟩
  | none => exact ⟨.clears (List.getElem?_eq_none_iff.mp h), rfl⟩

/-- The segment in which `create_answer` or `set_remote_answer` is in its flush. -/
structure InFlush (seg : Segment) (flushed : PeerConnection × List Effect × Option Nat) : Prop where
  session : seg.session.pc = flushed.1
  effects : seg.effects = flushed.2.1
  flow : ∀ c, seg.flow = .suspended c → c.describing = false ∧ c.place = flushed.2.2
  ended : (∀ c, seg.flow ≠ .suspended c) → flushed.2.2 = none

private theorem answerFlush_inFlush (s : Session) (h : Answering) (offer : Text)
    (flushed : PeerConnection × List Effect × Option Nat) :
    InFlush (s.answering h offer (PeerConnection.answerFlush flushed)) flushed := by
  obtain ⟨pc, effects, place⟩ := flushed
  cases place with
  | some index => exact ⟨rfl, rfl, fun c hc => Flow.suspended.inj hc ▸ ⟨rfl, rfl⟩, fun h => absurd rfl (h _)⟩
  | none => exact ⟨rfl, rfl, fun c hc => Flow.suspended.inj hc ▸ ⟨rfl, rfl⟩, fun _ => rfl⟩

private theorem applyFlush_inFlush (s : Session) (h : Applying) (answer : Text)
    (flushed : PeerConnection × List Effect × Option Nat) :
    InFlush (s.applying h answer (PeerConnection.applyFlush flushed)) flushed := by
  obtain ⟨pc, effects, place⟩ := flushed
  cases place with
  | some index => exact ⟨rfl, rfl, fun c hc => Flow.suspended.inj hc ▸ ⟨rfl, rfl⟩, fun h => absurd rfl (h _)⟩
  | none => exact ⟨rfl, rfl, (fun c hc => by cases hc), fun _ => rfl⟩

/-- The tasks after a turn of a flush. -/
private theorem inFlush_tasks {l : SessionLoop κ} {seg : Segment} {flushed : PeerConnection × List Effect × Option Nat}
    (h : InFlush seg flushed) (tasks : List (Task κ)) (caller : κ) :
    (({ l with tasks := tasks } : SessionLoop κ).segment seg caller).loop.describing = tasks.countP (fun t => t.coroutine.describing) ∧
      (({ l with tasks := tasks } : SessionLoop κ).segment seg caller).loop.places.Perm
        (flushed.2.2.toList ++ tasks.filterMap fun t => t.coroutine.place) := by
  simp only [describing, places, segment_tasks]
  cases hflow : seg.flow with
  | suspended c =>
    obtain ⟨hd, hplace⟩ := h.flow c hflow
    refine ⟨by simp [hd], ?_⟩
    rw [List.filterMap_append]
    refine List.perm_append_comm.trans ?_
    cases hnext : flushed.2.2 with
    | none => simp [hplace.trans hnext]
    | some i => simp [hplace.trans hnext]
  | returned value => exact ⟨rfl, by simp [h.ended fun c hc => by rw [hflow] at hc; cases hc]⟩
  | raised => exact ⟨rfl, by simp [h.ended fun c hc => by rw [hflow] at hc; cases hc]⟩

private theorem posts_describes {l : SessionLoop κ} {index : Nat} {t : Task κ} {seg : Segment} {sdp : Text}
    (ht : l.tasks[index]? = some t) (hd : t.coroutine.describing = true) (hplace : t.coroutine.place = none)
    (h : InFlush seg (l.session.pc.beginFlush sdp)) :
    Posts l ({ l with tasks := l.tasks.eraseIdx index }.segment seg t.caller).loop [] := by
  obtain ⟨hturn, hset⟩ := flushFrom_turns { l.session.pc with remoteDescription := some sdp, remoteDescriptionSet := true } 0
  obtain ⟨hdescribing', hplaces'⟩ := inFlush_tasks (l := l) h (l.tasks.eraseIdx index) t.caller
  have hdescribing := describing_left ht
  have hplaces := places_left ht
  rw [hd, if_pos rfl] at hdescribing
  rw [hplace, Option.toList_none, List.nil_append] at hplaces
  refine .describes sdp _ _ (by rw [segment_trace, h.effects]; rfl) ?_ ?_ (by rw [hdescribing', hdescribing])
    (hplaces'.trans (hplaces.symm.append_left _))
  · rw [segment_session, h.session]
    exact hturn
  · rw [segment_session, h.session]
    exact hset

private theorem posts_flushes {l : SessionLoop κ} {index i : Nat} {t : Task κ} {seg : Segment}
    (ht : l.tasks[index]? = some t) (hd : t.coroutine.describing = false) (hplace : t.coroutine.place = some i)
    (h : InFlush seg (l.session.pc.flushFrom (i + 1))) :
    Posts l ({ l with tasks := l.tasks.eraseIdx index }.segment seg t.caller).loop [] := by
  obtain ⟨hturn, hset⟩ := flushFrom_turns l.session.pc (i + 1)
  obtain ⟨hdescribing', hplaces'⟩ := inFlush_tasks (l := l) h (l.tasks.eraseIdx index) t.caller
  have hdescribing := describing_left ht
  have hplaces := places_left ht
  rw [hd, if_neg (by decide), Nat.add_zero] at hdescribing
  rw [hplace] at hplaces
  refine .flushes i _ _ _ (by rw [segment_trace, h.effects]) ?_ ?_ (by rw [hdescribing', hdescribing]) hplaces hplaces'
  · rw [segment_session, h.session]
    exact hturn
  · rw [segment_session, h.session]
    exact hset

private theorem posts_unchanged (l : SessionLoop κ) : Posts l l [] :=
  .rests [] (List.append_nil _).symm (by simp) rfl rfl rfl (List.Perm.refl _)

private theorem posts_callback {l : SessionLoop κ} {s' : Session} {effects : List Effect}
    (h : Session.Callback l.session s' effects) : Posts l (l.ran (s', effects)).loop [] := by
  refine .rests effects rfl ?_ h.pc.pending h.pc.remote rfl (List.Perm.refl _)
  intro f hf
  rcases h.effects f hf with rfl | ⟨data, rfl⟩ | ⟨error, rfl⟩ | ⟨error, rfl⟩ <;> exact ⟨rfl, rfl⟩

/-- A signal other than a candidate supplies the remote description, or does nothing about it. -/
private theorem posts_signal [Aiortc] {l : SessionLoop κ} {message : SignalingMessage} {seg : Segment} {caller : κ}
    (hb : Session.Began l.session (.handleSignal message) seg) (hm : ∀ k text, message ≠ .candidateAdd k text) :
    Posts l (l.segment seg caller).loop [] := by
  cases hb with
  | ignored c => exact .rests [] rfl (by simp) rfl rfl rfl (List.Perm.refl _)
  | closes k error => exact posts_callback (Session.close_callback l.session error false)
  | request k offer hs hd =>
    refine .supplies [] (.createAnswer offer) (segment_trace _ _ _) (by simp) rfl hd.symm rfl rfl ?_ ?_
    · simp [describing, segment, Suspended.describing]
    · simp [places, segment, Suspended.place]
  | response k answer hs hd =>
    refine .supplies [.armed (.member .negotiationTimeoutWaitingForAccept)] (.setRemoteAnswer answer) (segment_trace _ _ _)
      ?_ rfl hd.symm (by simp) (by simp) ?_ ?_
    · intro f hf
      obtain rfl := List.mem_singleton.mp hf
      exact ⟨rfl, rfl⟩
    · simp [describing, segment, Suspended.describing]
    · simp [places, segment, Suspended.place]
  | malformed k text => exact absurd rfl (hm k text)
  | adds k text => exact absurd rfl (hm k text)
  | buffers k text => exact absurd rfl (hm k text)

private theorem posts_candidate [Aiortc] (l : SessionLoop κ) (k : Nat) (text : Text) (caller : κ)
    (hs : l.session.state ≠ .closed) :
    Posts l (l.segment (l.session.handleSignal (.candidateAdd k text)) caller).loop
      (PeerConnection.candidateFromMessage text).toList := by
  simp only [Session.handleSignal, if_neg hs, PeerConnection.addRemoteCandidate]
  cases hc : PeerConnection.candidateFromMessage text with
  | none => exact .rests [] rfl (by simp) rfl rfl rfl (List.Perm.refl _)
  | some c =>
    cases hset : l.session.pc.remoteDescriptionSet with
    | true =>
      refine .adds c rfl hset rfl hset ?_ ?_
      · simp [describing, segment, Session.adding, Suspended.describing]
      · simp [places, segment, Session.adding, Suspended.place]
    | false => exact .buffers c (List.append_nil _) hset rfl (by simp [Session.adding]) rfl (List.Perm.refl _)

/-- An aiortc call that raises ends its coroutine and changes nothing else. -/
theorem resume_raised (s : Session) (c : Suspended) : s.resume c .raised = ⟨s, [], .raised⟩ := by
  have hwent := Session.resume_went s c .raised
  generalize s.resume c .raised = seg at hwent
  cases hwent
  rfl

private theorem posts_raised {l : SessionLoop κ} {index : Nat} {t : Task κ} (ht : l.tasks[index]? = some t)
    (hr : Endures l (.resume index .raised)) :
    Posts l ({ l with tasks := l.tasks.eraseIdx index }.segment (l.session.resume t.coroutine .raised) t.caller).loop [] := by
  have hkept := hr t ht
  rw [resume_raised]
  cases hcoroutine : t.coroutine with
  | offering h a => exact posts_beside ht (by rw [hcoroutine]; rfl) (by rw [hcoroutine]; rfl) (raised_beside l.session)
  | answering h offer a => exact absurd hkept (by rw [hcoroutine]; exact id)
  | adding c => exact posts_beside ht (by rw [hcoroutine]; rfl) (by rw [hcoroutine]; rfl) (raised_beside l.session)
  | applying h answer a =>
    rw [hcoroutine] at hkept
    cases a with
    | setRemoteDescription => exact hkept.elim
    | flush i =>
      have hdescribing := describing_left ht
      have hplaces := places_left ht
      rw [hcoroutine] at hdescribing hplaces
      exact .stops i _ ((segment_trace _ _ _).trans (List.append_nil _)) hkept rfl rfl hdescribing hplaces (List.Perm.refl _)

private theorem posts_resumed {l : SessionLoop κ} {index : Nat} {t : Task κ} (sdp : Text) (ht : l.tasks[index]? = some t) :
    Posts l ({ l with tasks := l.tasks.eraseIdx index }.segment (l.session.resume t.coroutine (.ok sdp)) t.caller).loop [] := by
  have hdescribing : ∀ c, t.coroutine = c → t.coroutine.describing = c.describing := fun c h => h ▸ rfl
  have hplace : ∀ c, t.coroutine = c → t.coroutine.place = c.place := fun c h => h ▸ rfl
  cases hcoroutine : t.coroutine with
  | offering h a =>
    exact posts_beside ht (hdescribing _ hcoroutine) (hplace _ hcoroutine) (offering_beside l.session h a sdp)
  | answering h offer a =>
    cases a with
    | setRemoteDescription =>
      exact posts_describes ht (hdescribing _ hcoroutine) (hplace _ hcoroutine) (answerFlush_inFlush l.session h offer _)
    | flush i =>
      exact posts_flushes ht (hdescribing _ hcoroutine) (hplace _ hcoroutine) (answerFlush_inFlush l.session h offer _)
    | createAnswer =>
      refine posts_beside ht (hdescribing _ hcoroutine) (hplace _ hcoroutine) ⟨?_, rfl, rfl, fun c hc => Flow.suspended.inj hc ▸ ⟨rfl, rfl⟩⟩
      simp [Session.resume, Session.answering, PeerConnection.resumeAnswer]
    | setLocalDescription =>
      exact posts_beside ht (hdescribing _ hcoroutine) (hplace _ hcoroutine) (answered_beside l.session h offer sdp)
  | applying h answer a =>
    cases a with
    | setRemoteDescription =>
      exact posts_describes ht (hdescribing _ hcoroutine) (hplace _ hcoroutine) (applyFlush_inFlush l.session h answer _)
    | flush i =>
      exact posts_flushes ht (hdescribing _ hcoroutine) (hplace _ hcoroutine) (applyFlush_inFlush l.session h answer _)
  | adding c =>
    refine posts_beside ht (hdescribing _ hcoroutine) (hplace _ hcoroutine) ⟨?_, rfl, rfl, fun c hc => by cases hc⟩
    simp [Session.resume, Session.adding, PeerConnection.resumeCandidate]

/-- What one event does about the candidates of an open session. -/
theorem posts_step [Aiortc] (l : SessionLoop κ) (e : SessionEvent κ) (hs : l.session.state ≠ .closed) (he : Signalled e)
    (hr : Endures l e) : Posts l (l.next e) (takes e) := by
  have callback : (∀ c caller, e ≠ .call c caller) → (∀ index reply, e ≠ .resume index reply) → Posts l (l.next e) [] := by
    intro hcall hresume
    have hsteps := l.step_steps e
    simp only [next]
    generalize l.step e = stepped at hsteps ⊢
    cases hsteps with
    | call c caller => exact absurd rfl (hcall c caller)
    | resume index reply => exact absurd rfl (hresume index reply)
    | callback _ s' effects hc => exact posts_callback hc
  cases e with
  | call c caller =>
    cases c with
    | handleSignal message =>
      have hb := Session.call_began l.session (.handleSignal message)
      cases message with
      | candidateAdd k text => exact posts_candidate l k text caller hs
      | _ => exact posts_signal hb (by simp)
    | _ => exact he.elim
  | resume index reply =>
    simp only [next, step, takes]
    cases ht : l.tasks[index]? with
    | none => exact posts_unchanged l
    | some t =>
      cases reply with
      | raised => exact posts_raised ht hr
      | ok sdp => exact posts_resumed sdp ht
  | _ => exact callback (by simp) (by simp)

/-! ### The ledger -/

/-- Where the candidates that a session took are: in the buffer until the remote
description is set, and from then on with aiortc or before the one flush. -/
structure Booked (l : SessionLoop κ) (taken : List Candidate) : Prop where
  supplied : l.describing + (if l.session.pc.remoteDescriptionSet then 1 else 0) = l.trace.countP Effect.isSupply
  sided : ∀ f ∈ l.trace, f.isSupply = true → f.isApplied = l.session.isDialer
  ordered : Ordered l.trace
  described : l.session.pc.remoteDescriptionSet = true → ∃ sdp, .remoteDescription sdp ∈ l.trace
  pending : ∀ c ∈ l.session.pc.pendingRemoteCandidates, c ∈ taken
  waiting : l.session.pc.remoteDescriptionSet = false →
    l.places = [] ∧ l.added = [] ∧ l.session.pc.pendingRemoteCandidates = taken
  flushed : l.session.pc.remoteDescriptionSet = true → (l.places = [] ∧ l.added.Perm taken) ∨
    ∃ index, l.places = [index] ∧ (l.added ++ l.session.pc.pendingRemoteCandidates.drop (index + 1)).Perm taken

theorem booked_fresh (s : Session) (hset : s.pc.remoteDescriptionSet = false) (hpending : s.pc.pendingRemoteCandidates = []) :
    Booked (fresh s : SessionLoop κ) [] := by
  refine ⟨by simp [fresh, describing, hset], by simp [fresh], ?_, ?_, by simp [fresh, hpending], ?_, ?_⟩
  · intro before c after h
    simp [fresh] at h
  · intro h
    simp [fresh, hset] at h
  · exact fun _ => ⟨rfl, rfl, hpending⟩
  · intro h
    simp [fresh, hset] at h

private theorem turns_effects {pending pending' : List Candidate} {index : Nat} {effects : List Effect} {place : Option Nat}
    (h : Turns pending index effects place pending') :
    effects.filterMap Effect.candidate ++ (match place with | some i => pending'.drop (i + 1) | none => []) = pending.drop index ∧
      (∀ i, place = some i → i = index) ∧ (∀ c ∈ pending', c ∈ pending) ∧ ∀ f ∈ effects, f.isSupply = false := by
  cases h with
  | hands c hc =>
    obtain ⟨hlt, rfl⟩ := List.getElem?_eq_some_iff.mp hc
    refine ⟨?_, fun i hi => (Option.some.inj hi).symm, fun _ h => h, ?_⟩
    · exact (List.drop_eq_getElem_cons hlt).symm
    · intro f hf
      obtain rfl := List.mem_singleton.mp hf
      rfl
  | clears hle => exact ⟨(List.drop_eq_nil_of_le hle).symm, (fun i hi => by cases hi), by simp, by simp⟩

private theorem added_append {l l' : SessionLoop κ} {effects : List Effect} (ht : l'.trace = l.trace ++ effects) :
    l'.added = l.added ++ effects.filterMap Effect.candidate := by
  simp only [added, ht, List.filterMap_append]

private theorem ordered_quiet {trace effects : List Effect} (h : Ordered trace) (he : ∀ f ∈ effects, f.candidate = none) :
    Ordered (trace ++ effects) := by
  refine ordered_append h fun before c after heq => ?_
  have hmem : .addIceCandidate c ∈ effects := by simp [heq]
  cases he _ hmem

/-- A step that hands over no candidate and buffers none. -/
private theorem booked_quiet {l l' : SessionLoop κ} {taken : List Candidate} {effects : List Effect} (h : Booked l taken)
    (ht : l'.trace = l.trace ++ effects) (he : ∀ f ∈ effects, f.candidate = none)
    (hside : ∀ f ∈ effects, f.isSupply = true → f.isApplied = l.session.isDialer)
    (hdialer : l'.session.isDialer = l.session.isDialer)
    (hp : l'.session.pc.pendingRemoteCandidates = l.session.pc.pendingRemoteCandidates)
    (hs : l'.session.pc.remoteDescriptionSet = l.session.pc.remoteDescriptionSet)
    (hd : l'.describing = l.describing + effects.countP Effect.isSupply) (hplaces : l'.places.Perm l.places) :
    Booked l' taken := by
  have hadded : l'.added = l.added := by
    rw [added_append ht, List.filterMap_eq_nil_iff.mpr he, List.append_nil]
  refine ⟨?_, ?_, ht ▸ ordered_quiet h.ordered he, ?_, hp ▸ h.pending, ?_, ?_⟩
  · rw [hd, hs, ht, List.countP_append, ← h.supplied]
    omega
  · rw [ht, hdialer]
    exact List.forall_mem_append.mpr ⟨h.sided, hside⟩
  · intro hset
    obtain ⟨sdp, hsdp⟩ := h.described (hs ▸ hset)
    exact ⟨sdp, ht ▸ List.mem_append_left _ hsdp⟩
  · intro hset
    obtain ⟨hnone, hnothing, hpending⟩ := h.waiting (hs ▸ hset)
    exact ⟨List.Perm.eq_nil (hnone ▸ hplaces), hadded ▸ hnothing, hp ▸ hpending⟩
  · intro hset
    rw [hadded, hp]
    rcases h.flushed (hs ▸ hset) with ⟨hnone, hperm⟩ | ⟨index, hone, hperm⟩
    · exact Or.inl ⟨List.Perm.eq_nil (hnone ▸ hplaces), hperm⟩
    · exact Or.inr ⟨index, List.perm_singleton.mp (hone ▸ hplaces), hperm⟩

/-- A candidate that is taken is buffered, or handed over at once. -/
private theorem booked_taken {l l' : SessionLoop κ} {taken : List Candidate} {c : Candidate} (h : Booked l taken)
    (hdialer : l'.session.isDialer = l.session.isDialer)
    (hs : l'.session.pc.remoteDescriptionSet = l.session.pc.remoteDescriptionSet) (hd : l'.describing = l.describing)
    (hplaces : l'.places.Perm l.places)
    (hc : l.session.pc.remoteDescriptionSet = false ∧ l'.trace = l.trace ∧
        l'.session.pc.pendingRemoteCandidates = l.session.pc.pendingRemoteCandidates ++ [c] ∨
      l.session.pc.remoteDescriptionSet = true ∧ l'.trace = l.trace ++ [.addIceCandidate c] ∧
        l'.session.pc.pendingRemoteCandidates = l.session.pc.pendingRemoteCandidates) : Booked l' (taken ++ [c]) := by
  rcases hc with ⟨hset, ht, hp⟩ | ⟨hset, ht, hp⟩
  · have hadded : l'.added = l.added := by simp only [added, ht]
    obtain ⟨hnone, hnothing, hpending⟩ := h.waiting hset
    refine ⟨by rw [hd, hs, ht, h.supplied], by rw [ht, hdialer]; exact h.sided, ht ▸ h.ordered, ?_, ?_, ?_, ?_⟩
    · intro hset'
      exact absurd (hset.symm.trans (hs ▸ hset')) (by decide)
    · rw [hp, hpending]
      exact fun c hc => hc
    · exact fun _ => ⟨List.Perm.eq_nil (hnone ▸ hplaces), hadded ▸ hnothing, by rw [hp, hpending]⟩
    · intro hset'
      exact absurd (hset.symm.trans (hs ▸ hset')) (by decide)
  · have hadded : l'.added = l.added ++ [c] := added_append ht
    obtain ⟨sdp, hsdp⟩ := h.described hset
    refine ⟨?_, ?_, ?_, ?_, ?_, ?_, ?_⟩
    · rw [hd, hs, ht, List.countP_append, h.supplied]
      rfl
    · rw [ht, hdialer]
      refine List.forall_mem_append.mpr ⟨h.sided, ?_⟩
      intro f hf hsupply
      obtain rfl := List.mem_singleton.mp hf
      cases hsupply
    · rw [ht]
      exact ordered_append h.ordered fun _ _ _ _ => Or.inl ⟨sdp, hsdp⟩
    · exact fun _ => ⟨sdp, ht ▸ List.mem_append_left _ hsdp⟩
    · rw [hp]
      exact fun c hc => List.mem_append_left _ (h.pending c hc)
    · intro hset'
      exact absurd (hset.symm.trans (hs ▸ hset')) (by decide)
    · intro _
      rw [hadded, hp]
      rcases h.flushed hset with ⟨hnone, hperm⟩ | ⟨index, hone, hperm⟩
      · exact Or.inl ⟨List.Perm.eq_nil (hnone ▸ hplaces), hperm.append_right _⟩
      · refine Or.inr ⟨index, List.perm_singleton.mp (hone ▸ hplaces), ?_⟩
        rw [List.append_assoc]
        refine (List.Perm.append_left _ List.perm_append_comm).trans ?_
        rw [← List.append_assoc]
        exact hperm.append_right _

private theorem eq_toList_of_perm {places : List Nat} {place : Option Nat} (h : places.Perm place.toList) :
    places = place.toList := by
  cases place with
  | none => exact List.Perm.eq_nil h
  | some i => exact List.perm_singleton.mp h

/-- A turn of the flush: what is left to hand over was left before, or has just been handed over. -/
private theorem booked_turn {l l' : SessionLoop κ} {taken : List Candidate} {index : Nat} {effects : List Effect}
    {place : Option Nat} (first : List Effect) (h : Booked l taken)
    (ht : l'.trace = l.trace ++ (first ++ effects)) (hfirst : ∀ f ∈ first, f.isSupply = false ∧ f.candidate = none)
    (hturn : Turns l.session.pc.pendingRemoteCandidates index effects place l'.session.pc.pendingRemoteCandidates)
    (hdialer : l'.session.isDialer = l.session.isDialer) (hs : l'.session.pc.remoteDescriptionSet = true)
    (hd : l'.describing + 1 = l.describing + if l.session.pc.remoteDescriptionSet then 1 else 0)
    (hbefore : ∃ sdp, .remoteDescription sdp ∈ l.trace ++ first) (hplaces : l'.places = place.toList)
    (hleft : (l.added ++ l.session.pc.pendingRemoteCandidates.drop index).Perm taken) : Booked l' taken := by
  obtain ⟨heffects, hplace, hkept, hnosupply⟩ := turns_effects hturn
  have hcount : (first ++ effects).countP Effect.isSupply = 0 := by
    refine List.countP_eq_zero.mpr (List.forall_mem_append.mpr ⟨fun f hf => ?_, fun f hf => ?_⟩)
    · simp [(hfirst f hf).1]
    · simp [hnosupply f hf]
  have hadded : l'.added = l.added ++ effects.filterMap Effect.candidate := by
    rw [added_append ht, List.filterMap_append, List.filterMap_eq_nil_iff.mpr fun f hf => (hfirst f hf).2, List.nil_append]
  obtain ⟨sdp, hsdp⟩ := hbefore
  have hmem : .remoteDescription sdp ∈ l'.trace := by
    rw [ht, ← List.append_assoc]
    exact List.mem_append_left _ hsdp
  refine ⟨?_, ?_, ?_, fun _ => ⟨sdp, hmem⟩, fun c hc => h.pending c (hkept c hc), fun hset => ?_, fun _ => ?_⟩
  · rw [hs, if_pos rfl, hd, ht, List.countP_append, hcount, Nat.add_zero]
    exact h.supplied
  · rw [ht, hdialer]
    refine List.forall_mem_append.mpr ⟨h.sided, fun f hf hsupply => ?_⟩
    have hno := List.countP_eq_zero.mp hcount f hf
    exact absurd hsupply hno
  · rw [ht, ← List.append_assoc]
    have hearlier : Ordered (l.trace ++ first) := ordered_quiet h.ordered fun f hf => (hfirst f hf).2
    exact ordered_append hearlier fun _ _ _ _ => Or.inl ⟨sdp, hsdp⟩
  · cases hs.symm.trans hset
  · rw [hadded]
    cases place with
    | none =>
      refine Or.inl ⟨hplaces, ?_⟩
      rwa [← heffects, List.append_nil] at hleft
    | some i =>
      obtain rfl := hplace i rfl
      refine Or.inr ⟨i, hplaces, ?_⟩
      rwa [← heffects, ← List.append_assoc] at hleft

/-- One event of a session that is supplied with one remote description at most. -/
private theorem booked_posts {l l' : SessionLoop κ} {taken more : List Candidate} (h : Booked l taken) (hp : Posts l l' more)
    (hdialer : l'.session.isDialer = l.session.isDialer) (hone : l.trace.countP Effect.isSupply ≤ 1) :
    Booked l' (taken ++ more) := by
  cases hp with
  | rests effects ht he hp hs hd hplaces =>
    have hcount : effects.countP Effect.isSupply = 0 := List.countP_eq_zero.mpr fun f hf => by simp [(he f hf).1]
    rw [List.append_nil]
    refine booked_quiet h ht (fun f hf => (he f hf).2) ?_ hdialer hp hs (by rw [hd, hcount, Nat.add_zero]) hplaces
    intro f hf hsupply
    exact absurd hsupply (by simp [(he f hf).1])
  | supplies notice f ht he hf hside hp hs hd hplaces =>
    have hcount : (notice ++ [f]).countP Effect.isSupply = 1 := by
      rw [List.countP_append, List.countP_eq_zero.mpr fun g hg => by simp [(he g hg).1], List.countP_singleton, if_pos hf]
    rw [List.append_nil]
    refine booked_quiet h ht ?_ ?_ hdialer hp hs (by rw [hd, hcount]) hplaces
    · refine List.forall_mem_append.mpr ⟨fun g hg => (he g hg).2, fun g hg => ?_⟩
      obtain rfl := List.mem_singleton.mp hg
      cases g <;> first | rfl | cases hf
    · refine List.forall_mem_append.mpr ⟨fun g hg hsupply => absurd hsupply (by simp [(he g hg).1]), fun g hg _ => ?_⟩
      obtain rfl := List.mem_singleton.mp hg
      exact hside
  | buffers c ht hset hp hs hd hplaces =>
    exact booked_taken h hdialer (hs.trans hset.symm) hd hplaces (Or.inl ⟨hset, ht, hp⟩)
  | adds c ht hset hp hs hd hplaces =>
    exact booked_taken h hdialer (hs.trans hset.symm) hd hplaces (Or.inr ⟨hset, ht, hp⟩)
  | describes sdp effects place ht hturn hs hd hplaces =>
    -- the one call that supplies the description has not set it before
    have hunset : l.session.pc.remoteDescriptionSet = false := by
      rw [← h.supplied] at hone
      cases hset : l.session.pc.remoteDescriptionSet with
      | false => rfl
      | true =>
        rw [hset, if_pos rfl] at hone
        omega
    obtain ⟨hnone, hnothing, hpending⟩ := h.waiting hunset
    rw [hnone, List.append_nil] at hplaces
    have hplace := eq_toList_of_perm hplaces
    rw [List.append_nil]
    refine booked_turn [.remoteDescription sdp] h ht ?_ hturn hdialer hs (by rw [hunset]; simpa using hd) ⟨sdp, by simp⟩
      hplace ?_
    · intro f hf
      obtain rfl := List.mem_singleton.mp hf
      exact ⟨rfl, rfl⟩
    · rw [hnothing, hpending]
      exact List.Perm.refl _
  | flushes index rest effects place ht hturn hs hd hat hplaces =>
    have hset : l.session.pc.remoteDescriptionSet = true := by
      cases hset : l.session.pc.remoteDescriptionSet with
      | true => rfl
      | false =>
        rw [(h.waiting hset).1] at hat
        cases hat.symm.eq_nil
    obtain ⟨sdp, hsdp⟩ := h.described hset
    rcases h.flushed hset with ⟨hnone, _⟩ | ⟨i, hat', hleft⟩
    · rw [hnone] at hat
      cases hat.symm.eq_nil
    · rw [hat'] at hat
      obtain ⟨rfl, rfl⟩ := List.cons.inj (List.singleton_perm.mp hat)
      rw [List.append_nil] at hplaces
      have hplace := eq_toList_of_perm hplaces
      rw [List.append_nil]
      exact booked_turn [] h ht (by simp) hturn hdialer (hs.trans hset) (by rw [hd, hset, if_pos rfl])
        ⟨sdp, List.mem_append_left _ hsdp⟩ hplace hleft
  | stops index rest ht hlast hp hs hd hat hplaces =>
    -- the candidate that raised was the last one
    have hadded : l'.added = l.added := by simp only [added, ht]
    rw [List.append_nil]
    refine ⟨by rw [hd, hs, ht, h.supplied], by rw [ht, hdialer]; exact h.sided, ht ▸ h.ordered, ?_, hp ▸ h.pending, ?_, ?_⟩
    · rw [hs, ht]
      exact h.described
    · intro hset
      rw [(h.waiting (hs ▸ hset)).1] at hat
      cases hat.symm.eq_nil
    · intro hset
      rcases h.flushed (hs ▸ hset) with ⟨hnone, _⟩ | ⟨i, hat', hleft⟩
      · rw [hnone] at hat
        cases hat.symm.eq_nil
      · rw [hat'] at hat
        obtain ⟨rfl, rfl⟩ := List.cons.inj (List.singleton_perm.mp hat)
        rw [hlast, List.drop_length, List.append_nil] at hleft
        exact Or.inl ⟨List.Perm.eq_nil hplaces, hadded ▸ hleft⟩

/-- A session under the manager: a dialer applies one answer, a listener makes one. -/
structure Managed (l : SessionLoop κ) : Prop where
  dialer : l.session.isDialer = true → Dials l
  listener : l.session.isDialer = false → Answers l

/-- The event hands it a signal, or none, and to a listener its one request. -/
def Attends (l : SessionLoop κ) (e : SessionEvent κ) : Prop := Signalled e ∧ (l.session.isDialer = false → Heard l e)

theorem managed_step [Aiortc] (l : SessionLoop κ) (e : SessionEvent κ) (h : Managed l) (he : Attends l e) :
    Managed (l.next e) := by
  have hd := (l.next_identity e).2.2
  exact ⟨fun hdialer => l.dials_step e (h.dialer (hd ▸ hdialer)) he.1,
    fun hlistener => l.answers_step e (h.listener (hd ▸ hlistener)) (he.2 (hd ▸ hlistener))⟩

private theorem supplied_once {l : SessionLoop κ} {taken : List Candidate} (h : Booked l taken) (hm : Managed l) :
    l.trace.countP Effect.isSupply ≤ 1 := by
  cases hd : l.session.isDialer with
  | true =>
    have hcount : l.trace.countP Effect.isSupply ≤ l.trace.countP Effect.isApplied :=
      List.countP_mono_left fun f hf hsupply => (h.sided f hf hsupply).trans hd
    have happlies := (hm.dialer hd).applies
    omega
  | false =>
    have hcount : l.trace.countP Effect.isSupply ≤ l.trace.countP Effect.isCreateAnswer := by
      refine List.countP_mono_left fun f hf hsupply => ?_
      have hside := (h.sided f hf hsupply).trans hd
      cases f with
      | createAnswer offer => rfl
      | setRemoteAnswer answer => cases hside
      | _ => cases hsupply
    exact Nat.le_trans hcount (hm.listener hd).started

/-- A dialer that has just been started. -/
theorem booked_started [Aiortc] (s : Session) (hset : s.pc.remoteDescriptionSet = false)
    (hpending : s.pc.pendingRemoteCandidates = []) (caller : κ) : Booked ((fresh s).next (.call .start caller)) [] := by
  have hposts : Posts (fresh s) ((fresh s).next (.call .start caller)) [] :=
    .rests [.createOffer] rfl (by simp [Effect.isSupply, Effect.candidate]) rfl rfl rfl (List.Perm.refl _)
  have hbooked := booked_posts (booked_fresh s hset hpending) hposts rfl (Nat.zero_le 1)
  simpa using hbooked

/-- One event of an open session under the manager keeps its ledger. -/
theorem booked_step [Aiortc] (l : SessionLoop κ) (e : SessionEvent κ) {taken : List Candidate} (h : Booked l taken)
    (hm : Managed l) (hs : l.session.state ≠ .closed) (he : Signalled e) (hr : Endures l e) :
    Booked (l.next e) (taken ++ takes e) :=
  booked_posts h (l.posts_step e hs he hr) (l.next_identity e).2.2 (supplied_once h hm)

/-- Once its coroutines have finished, a session with its remote description has handed over every candidate. -/
theorem booked_finished {l : SessionLoop κ} {taken : List Candidate} (h : Booked l taken) (htasks : l.tasks = [])
    (hsupply : 0 < l.trace.countP Effect.isSupply) : l.added.Perm taken := by
  have hset : l.session.pc.remoteDescriptionSet = true := by
    have hsupplied := h.supplied
    cases hset : l.session.pc.remoteDescriptionSet with
    | true => rfl
    | false =>
      simp only [describing, htasks, List.countP_nil, hset, Bool.false_eq_true, if_false] at hsupplied
      omega
  rcases h.flushed hset with ⟨_, hperm⟩ | ⟨index, hone, _⟩
  · exact hperm
  · simp [places, htasks] at hone

end SessionLoop
end NetherNet
