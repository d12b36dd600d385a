import NetherNet.Manager.Waiting
import NetherNet.Session.Candidates

/-! The candidates of one session between the manager and the session: what the session
was given, and what the manager still has to hand over. -/
namespace NetherNet

/-- The candidates that an awaiting coroutine of the manager has still to hand over, with
those buffered for its session. -/
def Caller.owes (buffer : List CandidateAdd) : Caller → List CandidateAdd
  | .newSession _ _ => buffer
  | .flush _ _ rest => rest
  | _ => []

def SignalingMessage.adds : SignalingMessage → List CandidateAdd
  | .candidateAdd k candidate => [⟨k, candidate⟩]
  | _ => []

namespace Manager
open Library

def buffered (m : Manager) (k : Nat) : List CandidateAdd := (m.pendingCandidates.get? k).getD []

/-- The candidates that aiortc can parse. -/
def candidates [Aiortc] (cs : List CandidateAdd) : List Candidate :=
  cs.filterMap fun c => PeerConnection.candidateFromMessage c.candidate

@[simp] theorem candidates_append [Aiortc] (cs more : List CandidateAdd) :
    candidates (cs ++ more) = candidates cs ++ candidates more := List.filterMap_append

/-- The coroutines of the manager that wait for a coroutine of the session. -/
def awaiting (l : SessionLoop Caller) : List Caller := l.tasks.map (·.caller)

def owed (buffer : List CandidateAdd) (l : SessionLoop Caller) : List CandidateAdd :=
  (awaiting l).flatMap (·.owes buffer)

/-- What one event does to them. -/
inductive Awaits (l l' : SessionLoop Caller) : SessionEvent Caller → Outcome Caller → Prop where
  | goesOn (e : SessionEvent Caller) (h : (awaiting l').Perm (awaiting l)) : Awaits l l' e .none
  | begins (c : Call) (caller : Caller) (h : awaiting l' = awaiting l ++ [caller]) : Awaits l l' (.call c caller) .none
  | atOnce (c : Call) (caller : Caller) (o : Outcome Caller) (h : awaiting l' = awaiting l) : Awaits l l' (.call c caller) o
  | returns (index : Nat) (sdp : Text) (t : Task Caller) (value : Option Text) (ht : l.tasks[index]? = some t)
      (h : (t.caller :: awaiting l').Perm (awaiting l)) : Awaits l l' (.resume index (.ok sdp)) (.returned t.caller value)
  | raises (index : Nat) (t : Task Caller) (ht : l.tasks[index]? = some t)
      (h : (t.caller :: awaiting l').Perm (awaiting l)) : Awaits l l' (.resume index .raised) (.raised t.caller)

theorem awaits_step [Aiortc] (l : SessionLoop Caller) (e : SessionEvent Caller) : Awaits l (l.next e) e (l.step e).outcome := by
  have hsteps := l.step_steps e
  simp only [SessionLoop.next]
  generalize l.step e = stepped at hsteps ⊢
  cases hsteps with
  | callback _ s' effects hc => exact .goesOn e (List.Perm.refl _)
  | call c caller seg hb =>
    cases hflow : seg.flow with
    | suspended c' =>
      simp only [SessionLoop.segment, hflow]
      exact .begins c caller (by simp [awaiting])
    | returned value =>
      simp only [SessionLoop.segment, hflow]
      exact .atOnce c caller _ rfl
    | raised =>
      simp only [SessionLoop.segment, hflow]
      exact .atOnce c caller _ rfl
  | resume index reply t seg ht hw =>
    have hleft : (t.caller :: (l.tasks.eraseIdx index).map (·.caller)).Perm (awaiting l) := (perm_eraseIdx ht).map Task.caller
    cases hflow : seg.flow with
    | suspended c' =>
      simp only [SessionLoop.segment, hflow]
      refine .goesOn _ (List.Perm.trans ?_ hleft)
      simp only [awaiting, List.map_append, List.map_cons, List.map_nil]
      exact List.perm_append_singleton _ _
    | returned value =>
      simp only [SessionLoop.segment, hflow]
      cases reply with
      | ok sdp => exact .returns index sdp t value ht hleft
      | raised =>
        generalize t.coroutine = c at hw
        cases hw
        cases hflow
    | raised =>
      simp only [SessionLoop.segment, hflow]
      cases reply with
      | raised => exact .raises index t ht hleft
      | ok sdp =>
        generalize t.coroutine = c at hw
        cases hw with
        | offered handler sdp s' hs' => cases handler <;> cases hflow
        | answered handler offer sdp s' hs' => cases handler <;> cases hflow
        | _ => cases hflow

/-! ### One session -/

/-- A session of the manager, whose answer was started with it if it is a listener. -/
structure Conducts (l : SessionLoop Caller) : Prop where
  managed : l.Managed
  callers : Callers l
  supplied : l.session.isDialer = false → 0 < l.trace.countP Effect.isSupply
  responds : l.session.isDialer = false → l.Responds

private theorem Conducts.next [Aiortc] {l : SessionLoop Caller} (h : Conducts l) (e : SessionEvent Caller) (he : l.Attends e)
    (hc : ∀ c caller, e = .call c caller → CallOf l c caller) (hr : l.Endures e) : Conducts (l.next e) := by
  have hd := (l.next_identity e).2.2
  refine ⟨l.managed_step e h.managed he, callers_step l e h.callers hc, ?_, ?_⟩
  · intro hlistener
    have hpos := h.supplied (hd ▸ hlistener)
    have htrace : (l.next e).trace = l.trace ++ (l.step e).effects := l.step_trace e
    rw [htrace, List.countP_append]
    omega
  · intro hlistener
    refine l.responds_step e (h.responds (hd ▸ hlistener)) (h.managed.listener (hd ▸ hlistener)) (he.2 (hd ▸ hlistener)) ?_
    cases e with
    | resume index reply =>
      cases reply with
      | ok sdp => trivial
      | raised =>
        intro t ht
        have hkept := hr t ht
        cases hcoroutine : t.coroutine with
        | answering h offer a => exact absurd hkept (by rw [hcoroutine]; exact id)
        | _ => rfl
    | _ => trivial

/-- What the session was given and what is owed to it, together, are the candidates `kept`. -/
structure Ledger [Aiortc] (buffer : List CandidateAdd) (l : SessionLoop Caller) (kept : List CandidateAdd) : Prop where
  conducts : Conducts l
  booked : ∃ given, l.Booked (candidates given) ∧ (given ++ owed buffer l).Perm kept
  single : (awaiting l).countP (·.admitting.isSome) ≤ 1
  emptied : l.session.isDialer = false → (∀ senderId parsed, .newSession senderId parsed ∉ awaiting l) → buffer = []
  dialer : l.session.isDialer = true → ∀ c ∈ awaiting l, c.admitting = none

private theorem owes_nothing {buffer : List CandidateAdd} {c : Caller} (h : c.admitting = none) : c.owes buffer = [] := by
  cases c with
  | connect => rfl
  | handleSignal senderId parsed => rfl
  | newSession senderId parsed => cases h
  | flush senderId parsed rest => cases h

/-- Coroutines that come and go without a claim on candidates leave what is owed. -/
private theorem ledger_frame [Aiortc] {buffer kept : List CandidateAdd} {l l' : SessionLoop Caller}
    (news : List CandidateAdd) (come gone : List Caller)
    (h : Ledger buffer l kept) (hconducts : Conducts l') (hd : l'.session.isDialer = l.session.isDialer)
    (hbooked : ∀ given, l.Booked (candidates given) → l'.Booked (candidates (given ++ news)))
    (hcome : ∀ c ∈ come, c.admitting = none) (hgone : ∀ c ∈ gone, c.admitting = none)
    (hw : (awaiting l' ++ gone).Perm (awaiting l ++ come)) : Ledger buffer l' (kept ++ news) := by
  have nothing : ∀ cs : List Caller, (∀ c ∈ cs, c.admitting = none) → cs.flatMap (·.owes buffer) = [] ∧
      cs.countP (·.admitting.isSome) = 0 := fun cs hcs =>
    ⟨List.flatMap_eq_nil_iff.mpr fun c hc => owes_nothing (hcs c hc), List.countP_eq_zero.mpr fun c hc => by simp [hcs c hc]⟩
  have howed : (owed buffer l').Perm (owed buffer l) := by
    have hperm := hw.flatMap_right (·.owes buffer)
    rwa [List.flatMap_append, List.flatMap_append, (nothing gone hgone).1, (nothing come hcome).1, List.append_nil,
      List.append_nil] at hperm
  have hcount := hw.countP_eq (·.admitting.isSome)
  rw [List.countP_append, List.countP_append, (nothing gone hgone).2, (nothing come hcome).2] at hcount
  refine ⟨hconducts, ?_, ?_, ?_, ?_⟩
  · obtain ⟨given, hgiven, hperm⟩ := h.booked
    refine ⟨given ++ news, hbooked given hgiven, ?_⟩
    rw [List.append_assoc]
    refine (List.Perm.append_left given (List.perm_append_comm.trans (howed.append_right news))).trans ?_
    rw [← List.append_assoc]
    exact hperm.append_right news
  · rw [show (awaiting l').countP (·.admitting.isSome) = (awaiting l).countP (·.admitting.isSome) from hcount]
    exact h.single
  · intro hlistener hnone
    refine h.emptied (hd ▸ hlistener) fun senderId parsed hmem => ?_
    have hmem' := hw.symm.subset (List.mem_append_left come hmem)
    rcases List.mem_append.mp hmem' with hleft | hleft
    · exact hnone senderId parsed hleft
    · cases hgone _ hleft
  · intro hdialer c hc
    have hmem := hw.subset (List.mem_append_left gone hc)
    rcases List.mem_append.mp hmem with hold | hnew
    · exact h.dialer (hd ▸ hdialer) c hold
    · exact hcome c hnew

/-- A signal that the manager routes to the session. -/
theorem ledger_signal [Aiortc] {buffer kept : List CandidateAdd} {l : SessionLoop Caller} (h : Ledger buffer l kept)
    (hs : l.session.state ≠ .closed) (senderId : NetworkId) (parsed : SignalingMessage)
    (hheard : l.session.isDialer = false → l.Heard (.call (.handleSignal parsed) (Caller.handleSignal senderId parsed))) :
    Ledger buffer (l.next (.call (.handleSignal parsed) (.handleSignal senderId parsed))) (kept ++ parsed.adds) := by
  have hconducts := h.conducts.next (.call (.handleSignal parsed) (.handleSignal senderId parsed)) ⟨trivial, hheard⟩
    (fun c caller heq => by cases heq; trivial) trivial
  have hbooked : ∀ given, l.Booked (candidates given) →
      (l.next (.call (.handleSignal parsed) (Caller.handleSignal senderId parsed))).Booked (candidates (given ++ parsed.adds)) := by
    intro given hgiven
    have hstep := l.booked_step (.call (.handleSignal parsed) (Caller.handleSignal senderId parsed)) hgiven h.conducts.managed
      hs trivial trivial
    have htakes : SessionLoop.takes (.call (.handleSignal parsed) (Caller.handleSignal senderId parsed)) =
        candidates parsed.adds := by
      cases parsed with
      | candidateAdd k text =>
        simp only [SessionLoop.takes, SignalingMessage.adds, candidates]
        cases hc : PeerConnection.candidateFromMessage text <;> simp [hc]
      | _ => rfl
    rwa [htakes, ← candidates_append] at hstep
  have hd := (l.next_identity (.call (.handleSignal parsed) (Caller.handleSignal senderId parsed))).2.2
  have hawaits := awaits_step l (.call (.handleSignal parsed) (.handleSignal senderId parsed))
  generalize (l.step (.call (.handleSignal parsed) (Caller.handleSignal senderId parsed))).outcome = o at hawaits
  cases hawaits with
  | goesOn e hw => exact ledger_frame parsed.adds [] [] h hconducts hd hbooked (by simp) (by simp) (by simpa using hw)
  | begins c caller hw =>
    exact ledger_frame parsed.adds [.handleSignal senderId parsed] [] h hconducts hd hbooked (by simp [Caller.admitting]) (by simp) (by simp [hw])
  | atOnce c caller o hw => exact ledger_frame parsed.adds [] [] h hconducts hd hbooked (by simp) (by simp) (by simp [hw])

/-- What the end of a coroutine that nothing was owed through leaves. -/
private theorem ledger_ended [Aiortc] {buffer kept : List CandidateAdd} {l l' : SessionLoop Caller} {caller : Caller}
    (h : Ledger buffer l kept) (hconducts : Conducts l') (hd : l'.session.isDialer = l.session.isDialer)
    (hbooked : ∀ given, l.Booked (candidates given) → l'.Booked (candidates given)) (hcaller : caller.admitting = none)
    (hw : (caller :: awaiting l').Perm (awaiting l)) : Ledger buffer l' kept := by
  have hframe := ledger_frame [] [] [caller] h hconducts hd (by simpa using hbooked) (by simp) (by simpa using hcaller)
    (by simpa using (List.perm_append_singleton caller (awaiting l')).trans hw)
  simpa using hframe

/-- A listener none of whose coroutines is owed a candidate, while the manager has `left` in its hands. -/
structure Handing [Aiortc] (left : List CandidateAdd) (l : SessionLoop Caller) (kept : List CandidateAdd) : Prop where
  conducts : Conducts l
  listener : l.session.isDialer = false
  booked : ∃ given, l.Booked (candidates given) ∧ (given ++ left).Perm kept
  unowed : ∀ c ∈ awaiting l, c.admitting = none

/-- The one coroutine ends that candidates are owed through. -/
private theorem handing_of_ended [Aiortc] {buffer kept : List CandidateAdd} {l l' : SessionLoop Caller} {caller : Caller}
    {parsed : SignalingMessage} (h : Ledger buffer l kept) (hconducts : Conducts l')
    (hd : l'.session.isDialer = l.session.isDialer)
    (hbooked : ∀ given, l.Booked (candidates given) → l'.Booked (candidates given))
    (hcaller : caller.admitting = some parsed) (hw : (caller :: awaiting l').Perm (awaiting l)) :
    Handing (caller.owes buffer) l' kept := by
  have hmem : caller ∈ awaiting l := hw.subset (List.mem_cons_self ..)
  have hlistener : l.session.isDialer = false := by
    cases hdialer : l.session.isDialer with
    | false => rfl
    | true => cases (h.dialer hdialer caller hmem).symm.trans hcaller
  have hunowed : ∀ c ∈ awaiting l', c.admitting = none := by
    have hcount := hw.countP_eq (·.admitting.isSome)
    have hsingle := h.single
    rw [List.countP_cons, hcaller, Option.isSome_some, if_pos rfl] at hcount
    have hzero : (awaiting l').countP (·.admitting.isSome) = 0 := by omega
    exact fun c hc => by simpa using List.countP_eq_zero.mp hzero c hc
  obtain ⟨given, hgiven, hperm⟩ := h.booked
  refine ⟨hconducts, hd.trans hlistener, ⟨given, hbooked given hgiven, ?_⟩, hunowed⟩
  have howed := hw.flatMap_right (·.owes buffer)
  rw [List.flatMap_cons, List.flatMap_eq_nil_iff.mpr fun c hc => owes_nothing (hunowed c hc), List.append_nil] at howed
  exact (howed.append_left given).trans hperm

/-- Candidates that aiortc cannot parse may be dropped. -/
private theorem Handing.dropped [Aiortc] {left kept : List CandidateAdd} {l : SessionLoop Caller} (h : Handing left l kept)
    (hleft : candidates left = []) : Ledger [] l kept := by
  obtain ⟨given, hgiven, hperm⟩ := h.booked
  have howed : owed [] l = [] := List.flatMap_eq_nil_iff.mpr fun c hc => owes_nothing (h.unowed c hc)
  refine ⟨h.conducts, ⟨given ++ left, ?_, by rwa [howed, List.append_nil]⟩, ?_, fun _ _ => rfl, fun _ => h.unowed⟩
  · rwa [candidates_append, hleft, List.append_nil]
  · have hzero : (awaiting l).countP (·.admitting.isSome) = 0 :=
      List.countP_eq_zero.mpr fun c hc => by simp [h.unowed c hc]
    omega

/-- The first turn of `_flush_pending_candidates`, after which it is suspended or has raised. -/
def flushOnto [Aiortc] (senderId : NetworkId) (parsed : SignalingMessage) (l : SessionLoop Caller) :
    List CandidateAdd → SessionLoop Caller
  | [] => l
  | c :: rest => l.next (.call (.handleSignal c.message) (.flush senderId parsed rest))

/-- A candidate that is flushed into an open session with its remote description set. -/
private theorem flushed_step [Aiortc] {l : SessionLoop Caller} (hs : l.session.state ≠ .closed)
    (hset : l.session.pc.remoteDescriptionSet = true) (c : CandidateAdd) (caller : Caller) :
    match PeerConnection.candidateFromMessage c.candidate with
    | none => (l.step (.call (.handleSignal c.message) caller)).outcome = .raised caller ∧
        awaiting (l.next (.call (.handleSignal c.message) caller)) = awaiting l
    | some _ => (l.step (.call (.handleSignal c.message) caller)).outcome = .none ∧
        awaiting (l.next (.call (.handleSignal c.message) caller)) = awaiting l ++ [caller] := by
  have hsignal : l.session.handleSignal c.message = l.session.adding (l.session.pc.addRemoteCandidate c.candidate) := by
    simp only [Session.handleSignal, if_neg hs, CandidateAdd.message]
  simp only [SessionLoop.next, SessionLoop.step, Session.call, hsignal, PeerConnection.addRemoteCandidate]
  cases hc : PeerConnection.candidateFromMessage c.candidate with
  | none => exact ⟨rfl, rfl⟩
  | some cand =>
    simp only [if_pos hset]
    exact ⟨rfl, by simp [awaiting, Session.adding, SessionLoop.segment]⟩

private theorem Handing.flushed [Aiortc] {left kept : List CandidateAdd} {l : SessionLoop Caller} (h : Handing left l kept)
    (hs : l.session.state ≠ .closed) (hset : l.session.pc.remoteDescriptionSet = true) (senderId : NetworkId)
    (parsed : SignalingMessage) (hspare : ∀ c rest, left = c :: rest →
      PeerConnection.candidateFromMessage c.candidate = none → candidates rest = []) :
    Ledger [] (flushOnto senderId parsed l left) kept := by
  cases left with
  | nil => exact h.dropped rfl
  | cons c rest =>
    have hconducts := h.conducts.next (.call (.handleSignal c.message) (.flush senderId parsed rest)) ⟨trivial, fun _ => trivial⟩
      (fun c' caller heq => by cases heq; exact ⟨⟨c.connectionId, c.candidate, rfl⟩, hset⟩) trivial
    have hd := (l.next_identity (.call (.handleSignal c.message) (Caller.flush senderId parsed rest))).2.2
    have hstep := flushed_step hs hset c (.flush senderId parsed rest)
    obtain ⟨given, hgiven, hperm⟩ := h.booked
    have hbooked := l.booked_step (.call (.handleSignal c.message) (Caller.flush senderId parsed rest)) hgiven
      h.conducts.managed hs trivial trivial
    have hunowed : owed [] l = [] := List.flatMap_eq_nil_iff.mpr fun c hc => owes_nothing (h.unowed c hc)
    have hzero : (awaiting l).countP (·.admitting.isSome) = 0 :=
      List.countP_eq_zero.mpr fun c hc => by simp [h.unowed c hc]
    have hnew : ∀ more : List CandidateAdd, (given ++ c :: more) = (given ++ [c]) ++ more := fun more => by simp
    cases hc : PeerConnection.candidateFromMessage c.candidate with
    | none =>
      -- it raises, and takes what comes after it along
      rw [hc] at hstep
      have hnothing : candidates (c :: rest) = [] := by
        rw [candidates, List.filterMap_cons_none (f := fun c : CandidateAdd => PeerConnection.candidateFromMessage c.candidate) hc]
        exact hspare c rest rfl hc
      have hsame : Handing (c :: rest) (l.next (.call (.handleSignal c.message) (.flush senderId parsed rest))) kept := by
        refine ⟨hconducts, hd.trans h.listener, ⟨given, ?_, hperm⟩, hstep.2.symm ▸ h.unowed⟩
        simpa [SessionLoop.takes, CandidateAdd.message, hc] using hbooked
      exact hsame.dropped hnothing
    | some cand =>
      rw [hc] at hstep
      refine ⟨hconducts, ⟨given ++ [c], ?_, ?_⟩, ?_, fun _ _ => rfl, ?_⟩
      · simpa [SessionLoop.takes, CandidateAdd.message, hc, candidates, flushOnto] using hbooked
      · have howed : owed [] (flushOnto senderId parsed l (c :: rest)) = rest := by
          simp only [owed, flushOnto, hstep.2, List.flatMap_append]
          rw [show (awaiting l).flatMap (·.owes []) = [] from hunowed]
          simp [Caller.owes]
        rw [howed, ← hnew]
        exact hperm
      · show (awaiting (l.next _)).countP _ ≤ 1
        rw [hstep.2, List.countP_append, hzero]
        exact Nat.le_refl 1
      · intro hdialer
        exact absurd ((hd.trans h.listener).symm.trans hdialer) (by decide)

/-! ### The manager's part -/

/-- An event of the session that loses no candidate aiortc can parse: nothing raises
inside `create_answer` or `set_remote_answer`, but for the last candidate of the latter's
flush, and where the manager's own flush raises no such candidate comes after it. -/
def Spares [Aiortc] (m : Manager) (l : SessionLoop Caller) (ev : SessionEvent Caller) : Prop :=
  l.Endures ev ∧ ∀ index reply t, ev = .resume index reply → l.tasks[index]? = some t →
    match reply with
    | .raised => ∀ senderId parsed rest, t.caller = .flush senderId parsed rest → candidates rest = []
    | .ok _ => ∀ c rest, m.upcoming t = c :: rest → PeerConnection.candidateFromMessage c.candidate = none →
        candidates rest = []

theorem flush_pendingCandidates [Aiortc] (r : Ref) (senderId : NetworkId) (parsed : SignalingMessage) (cs : List CandidateAdd)
    (m : Manager) : (flush r senderId parsed cs m).1.pendingCandidates = m.pendingCandidates := by
  induction cs generalizing m with
  | nil => rfl
  | cons c rest ih =>
    simp only [flush]
    split
    · rw [ih, onSession_pendingCandidates]
    · exact onSession_pendingCandidates ..

/-- Only the return of the coroutine that made a session takes a buffer. -/
theorem run_pendingCandidates [Aiortc] (m : Manager) (r : Ref) (ev : SessionEvent Caller) :
    (m.run r ev).1.pendingCandidates = match (m.onSession r ev).2.2 with
      | .returned (.newSession _ parsed) _ => m.pendingCandidates.pop parsed.connectionId
      | _ => m.pendingCandidates := by
  have hsame := onSession_pendingCandidates m r ev
  cases hout : (m.onSession r ev).2.2 with
  | none =>
    rw [run_of_outcome m r ev hout]
    exact hsame
  | raised caller =>
    rw [run_of_outcome m r ev hout]
    exact hsame
  | returned caller value =>
    rw [run_of_outcome m r ev hout]
    cases caller with
    | connect => exact hsame
    | handleSignal senderId parsed => exact hsame
    | newSession senderId parsed => exact (flush_pendingCandidates ..).trans (congrArg (·.pop parsed.connectionId) hsame)
    | flush senderId parsed rest => exact (flush_pendingCandidates ..).trans hsame

private theorem flush_onto [Aiortc] {m : Manager} {r : Ref} {l : SessionLoop Caller} (hl : m.heap[r]? = some l)
    (hs : l.session.state ≠ .closed) (hset : l.session.pc.remoteDescriptionSet = true) (senderId : NetworkId)
    (parsed : SignalingMessage) (cs : List CandidateAdd) :
    (flush r senderId parsed cs m).1.heap[r]? = some (flushOnto senderId parsed l cs) := by
  cases cs with
  | nil => exact hl
  | cons c rest =>
    have hheap := onSession_heap (.call (.handleSignal c.message) (.flush senderId parsed rest)) hl r
    rw [if_pos rfl] at hheap
    have hstep := flushed_step hs hset c (.flush senderId parsed rest)
    have hout : (m.onSession r (.call (.handleSignal c.message) (.flush senderId parsed rest))).2.2 =
        (l.step (.call (.handleSignal c.message) (.flush senderId parsed rest))).outcome := by rw [onSession_some _ hl]
    simp only [flush, hout]
    cases hc : PeerConnection.candidateFromMessage c.candidate with
    | none =>
      rw [hc] at hstep
      rw [hstep.1]
      exact hheap
    | some cand =>
      rw [hc] at hstep
      rw [hstep.1]
      exact hheap

/-- No resumed coroutine closes an open session. -/
private theorem resume_open (l : SessionLoop Caller) [Aiortc] (index : Nat) (reply : Reply) (hs : l.session.state ≠ .closed) :
    (l.next (.resume index reply)).session.state ≠ .closed := by
  simp only [SessionLoop.next, SessionLoop.step]
  split
  · exact hs
  · next t ht =>
    rw [SessionLoop.segment_session]
    have hwent := Session.resume_went l.session t.coroutine reply
    generalize l.session.resume t.coroutine reply = seg at hwent ⊢
    generalize t.coroutine = c at hwent
    cases hwent with
    | offered handler sdp s' hs' => cases handler <;> simp [Session.afterStart, Session.afterOffer]
    | answered handler offer sdp s' hs' => cases handler <;> simp [Session.afterAnswer, Session.afterRequest]
    | _ => exact hs

/-- An event of the session, and what the manager's coroutine that awaits it does next. -/
theorem ledger_run [Aiortc] {m : Manager} {r : Ref} {l : SessionLoop Caller} {k : Nat} {kept : List CandidateAdd}
    (hl : m.heap[r]? = some l) (h : Ledger (m.buffered k) l kept) (hs : l.session.state ≠ .closed)
    (hnamed : ∀ t ∈ l.tasks, ∀ senderId parsed, t.caller = .newSession senderId parsed → parsed.connectionId = k)
    (ev : SessionEvent Caller) (hc : ev.isCall = false) (hspare : m.Spares l ev) :
    ∃ l', (m.run r ev).1.heap[r]? = some l' ∧ Ledger ((m.run r ev).1.buffered k) l' kept := by
  obtain ⟨hendures, hlast⟩ := hspare
  have hattends : l.Attends ev := by
    cases ev with
    | call c caller => cases hc
    | _ => exact ⟨trivial, fun _ => trivial⟩
  have htakes : SessionLoop.takes ev = [] := by
    cases ev with
    | call c caller => cases hc
    | _ => rfl
  have hconducts := h.conducts.next ev hattends (fun c caller heq => by rw [heq] at hc; cases hc) hendures
  have hd := (l.next_identity ev).2.2
  have hbooked : ∀ given, l.Booked (candidates given) → (l.next ev).Booked (candidates given) := by
    intro given hgiven
    have hstep := l.booked_step ev hgiven h.conducts.managed hs hattends.1 hendures
    rwa [htakes, List.append_nil] at hstep
  have hheap := onSession_heap ev hl r
  rw [if_pos rfl] at hheap
  have hbuffered : (m.onSession r ev).1.buffered k = m.buffered k := by simp only [buffered, onSession_pendingCandidates]
  have hout : (m.onSession r ev).2.2 = (l.step ev).outcome := by rw [onSession_some ev hl]
  have hawaits := awaits_step l ev
  generalize ho : (l.step ev).outcome = o at hawaits hout
  rw [run_of_outcome m r ev hout]
  have ended : ∀ caller : Caller, caller.admitting = none → (caller :: awaiting (l.next ev)).Perm (awaiting l) →
      Ledger (m.buffered k) (l.next ev) kept := fun caller hcaller hw => ledger_ended h hconducts hd hbooked hcaller hw
  have emptied : ∀ senderId parsed rest, .flush senderId parsed rest ∈ awaiting l → m.buffered k = [] := by
    intro senderId parsed rest hmem
    have hlistener : l.session.isDialer = false := by
      cases hdialer : l.session.isDialer with
      | false => rfl
      | true => cases h.dialer hdialer _ hmem
    refine h.emptied hlistener fun senderId' parsed' hmem' => ?_
    -- two such coroutines cannot be waiting at a time
    cases eq_of_countP_le_one h.single hmem hmem' rfl rfl
  cases hawaits with
  | goesOn e hw =>
    have hframe := ledger_frame [] [] [] h hconducts hd (by simpa using hbooked) (by simp) (by simp) (by simpa using hw)
    rw [List.append_nil] at hframe
    exact ⟨_, hheap, by rw [show ((m.onSession r ev).1.afterCall r .none).1 = (m.onSession r ev).1 from rfl, hbuffered]; exact hframe⟩
  | begins c caller hw => cases hc
  | atOnce c caller o hw => cases hc
  | raises index t ht hw =>
    rw [show ((m.onSession r (.resume index .raised)).1.afterCall r (.raised t.caller)).1 =
      (m.onSession r (.resume index .raised)).1 from rfl, hbuffered]
    refine ⟨_, hheap, ?_⟩
    cases hadmitting : t.caller.admitting with
    | none => exact ended t.caller hadmitting hw
    | some parsed =>
      have hhanding := handing_of_ended h hconducts hd hbooked hadmitting hw
      cases hcaller : t.caller with
      | connect => rw [hcaller] at hadmitting; cases hadmitting
      | handleSignal senderId parsed' => rw [hcaller] at hadmitting; cases hadmitting
      | newSession senderId parsed' =>
        obtain ⟨offer, hoffer⟩ := h.conducts.callers.answering t (List.mem_of_getElem? ht) senderId parsed' hcaller
        have hkept := hendures t ht
        cases hcoroutine : t.coroutine with
        | answering handler offer' a => exact absurd hkept (by rw [hcoroutine]; exact id)
        | _ => rw [hcoroutine] at hoffer; cases hoffer
      | flush senderId parsed' rest =>
        rw [hcaller] at hhanding hw
        rw [emptied senderId parsed' rest (hw.subset (List.mem_cons_self ..))]
        exact hhanding.dropped (hlast index .raised t rfl ht senderId parsed' rest hcaller)
  | returns index sdp t value ht hw =>
    have hopen := resume_open l index (.ok sdp) hs
    have hmem := List.mem_of_getElem? ht
    obtain ⟨_, hfinal, _⟩ := handling_returned ht ho
    have hspared := hlast index (.ok sdp) t rfl ht
    cases hadmitting : t.caller.admitting with
    | none =>
      have hquiet : ((m.onSession r (.resume index (.ok sdp))).1.afterCall r (.returned t.caller value)).1 =
          (m.onSession r (.resume index (.ok sdp))).1 := by
        cases hcaller : t.caller with
        | newSession senderId parsed => rw [hcaller] at hadmitting; cases hadmitting
        | flush senderId parsed rest => rw [hcaller] at hadmitting; cases hadmitting
        | _ => rfl
      rw [hquiet, hbuffered]
      exact ⟨_, hheap, ended t.caller hadmitting hw⟩
    | some parsed =>
      have hhanding := handing_of_ended h hconducts hd hbooked hadmitting hw
      have flushing : ∀ senderId parsed' cs, m.Flushing (.session r (.resume index (.ok sdp))) r senderId parsed' cs →
          (l.next (.resume index (.ok sdp))).session.pc.remoteDescriptionSet = true := fun _ _ _ hf =>
        l.remote_step _ (flushing_set hl h.conducts.callers hf)
      cases hcaller : t.caller with
      | connect => rw [hcaller] at hadmitting; cases hadmitting
      | handleSignal senderId parsed' => rw [hcaller] at hadmitting; cases hadmitting
      | newSession senderId parsed' =>
        have hset := flushing senderId parsed' _ ⟨l, index, _, t, value, rfl, hl, ht, ho, Or.inl ⟨hcaller, List.suffix_refl _⟩⟩
        have hk := hnamed t hmem senderId parsed' hcaller
        have hlast' := hfinal (h.conducts.callers.answering t hmem senderId parsed' hcaller)
        simp only [upcoming, hcaller, if_pos hlast', hk] at hspared
        rw [hcaller] at hhanding
        simp only [afterCall, flushPendingCandidates, hk, onSession_pendingCandidates]
        have htaken : ({ (m.onSession r (.resume index (.ok sdp))).1 with
            pendingCandidates := m.pendingCandidates.pop k } : Manager).heap[r]? = some (l.next (.resume index (.ok sdp))) := hheap
        refine ⟨_, flush_onto htaken hopen hset senderId parsed' _, ?_⟩
        simp only [buffered, flush_pendingCandidates, Dict.get?_pop_self, Option.getD_none]
        exact hhanding.flushed hopen hset senderId parsed' hspared
      | flush senderId parsed' rest =>
        have hset := flushing senderId parsed' _ ⟨l, index, _, t, value, rfl, hl, ht, ho,
          Or.inr ⟨rest, hcaller, List.suffix_refl _⟩⟩
        simp only [upcoming, hcaller] at hspared
        rw [hcaller] at hhanding hw
        simp only [afterCall]
        refine ⟨_, flush_onto hheap hopen hset senderId parsed' _, ?_⟩
        have hempty : (flush r senderId parsed' rest (m.onSession r (.resume index (.ok sdp))).1).1.buffered k = [] := by
          simp only [buffered, flush_pendingCandidates]
          exact hbuffered.trans (emptied senderId parsed' rest (hw.subset (List.mem_cons_self ..)))
        rw [hempty]
        exact hhanding.flushed hopen hset senderId parsed' hspared

end Manager
end NetherNet
