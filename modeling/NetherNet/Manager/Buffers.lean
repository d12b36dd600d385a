import Mathlib.Algebra.Group.Action.Defs
import Mathlib.Algebra.Order.BigOperators.Group.List
import Mathlib.Algebra.Order.Group.Nat
import Mathlib.Data.List.Perm.Subperm
import NetherNet.Manager.Candidates

/-! How much `_pending_candidates` holds, over whole runs, and whether what it holds goes
with the listener that it was buffered for. -/
namespace NetherNet
namespace Manager
open Library

/-- The candidates buffered under all ids. -/
def pendingTotal (m : Manager) : Nat := (m.pendingCandidates.values.map List.length).sum

/-- The event buffers a candidate under `k`. -/
def Buffers (m : Manager) (k : Nat) (e : ManagerEvent) : Prop :=
  ∃ senderId candidate, m.Received e senderId (.candidateAdd k candidate) ∧ m.sessions.get? k = none

/-- What one event does to an entry: it stays, goes, or takes a candidate. -/
theorem pending_step [Aiortc] (m : Manager) (e : ManagerEvent) (k : Nat) :
    (m.next e).pendingCandidates.get? k = m.pendingCandidates.get? k ∨ (m.next e).pendingCandidates.get? k = none ∨
      m.Buffers k e := by
  have hacts := step_acts m e
  simp only [next]
  generalize (m.step e).1 = m', (m.step e).2 = outs at hacts
  induction hacts with
  | tasks created closing => exact Or.inl rfl
  | direct r ev he hc => exact Or.inl (by rw [onSession_pendingCandidates])
  | enroll created k' remoteId isDialer c caller hk =>
    exact Or.inl (congrArg (Dict.get? · k) (onSession_pendingCandidates _ _ _))
  | route created senderId parsed r hs hr => exact Or.inl (by rw [onSession_pendingCandidates])
  | buffer created senderId k' candidate hs hk =>
    by_cases hkk : k = k'
    · subst hkk
      exact Or.inr (Or.inr ⟨senderId, candidate, hs, hk⟩)
    · exact Or.inl (Dict.get?_set_ne _ _ hkk)
  | take m' outs h k' ih =>
    simp only [Dict.get?_pop]
    split
    · exact Or.inr (Or.inl rfl)
    · exact ih
  | flush m' outs h r senderId parsed c rest hf ih => rwa [onSession_pendingCandidates]
  | shut m' outs h r closing he ih => rwa [onSession_pendingCandidates]
  | clear m' outs h he ih => exact ih

/-! ### The bound -/

/-- Every entry stands under an id that a message can carry, and holds at most as many candidates as the limit says. -/
def Limited (m : Manager) : Prop :=
  ∀ entry ∈ m.pendingCandidates.entries, entry.1 ≤ u64Max ∧ entry.2.length ≤ maxPendingCandidates

theorem limited_step [Aiortc] (m : Manager) (e : ManagerEvent) (hm : m.Limited) : (m.next e).Limited := by
  have hacts := step_acts m e
  simp only [next]
  generalize (m.step e).1 = m', (m.step e).2 = outs at hacts
  induction hacts with
  | tasks created closing => exact hm
  | direct r ev he hc => rwa [Limited, onSession_pendingCandidates]
  | enroll created k remoteId isDialer c caller hk =>
    have hsame : ({ m with created := created }.enroll k remoteId isDialer c caller).1.pendingCandidates = m.pendingCandidates :=
      onSession_pendingCandidates _ _ _
    rwa [Limited, hsame]
  | route created senderId parsed r hs hr => rwa [Limited, onSession_pendingCandidates]
  | buffer created senderId k candidate hs hk =>
    intro entry hentry
    rcases mem_assign hentry with rfl | hentry
    · obtain ⟨index, text, _, _, hparse⟩ := hs
      obtain ⟨_, _, _, _, hu64, _⟩ := SignalingMessage.tokens_of_parse hparse
      refine ⟨hu64, ?_⟩
      have hold : ((m.pendingCandidates.get? k).getD []).length ≤ maxPendingCandidates := by
        cases hget : m.pendingCandidates.get? k with
        | none => exact Nat.zero_le _
        | some cs => exact (hm _ (mem_of_lookup hget)).2
      simp only
      split
      · next hlt =>
        rw [List.length_append]
        exact hlt
      · exact hold
    · exact hm entry hentry
  | take m' outs h k ih => exact fun entry hentry => ih entry (List.mem_of_mem_filter hentry)
  | flush m' outs h r senderId parsed c rest hf ih => rwa [Limited, onSession_pendingCandidates]
  | shut m' outs h r closing he ih => rwa [Limited, onSession_pendingCandidates]
  | clear m' outs h he ih => exact ih

theorem pendingTotal_le {m : Manager} (hm : m.Limited) : m.pendingTotal ≤ maxPendingCandidates * 2 ^ 64 := by
  have hids : (m.pendingCandidates.entries.map Prod.fst).length ≤ 2 ^ 64 := by
    have hsub : m.pendingCandidates.entries.map Prod.fst ⊆ List.range (2 ^ 64) := by
      intro k hk
      obtain ⟨entry, hentry, rfl⟩ := List.mem_map.mp hk
      rw [List.mem_range]
      exact Nat.lt_succ_of_le (hm entry hentry).1
    have hperm := (List.Nodup.subperm m.pendingCandidates.nodup hsub).length_le
    rwa [List.length_range] at hperm
  have hsum : m.pendingTotal ≤ (m.pendingCandidates.entries.map Prod.fst).length * maxPendingCandidates := by
    have hbound := List.sum_le_card_nsmul (m.pendingCandidates.values.map List.length) maxPendingCandidates fun n hn => by
      obtain ⟨cs, hcs, rfl⟩ := List.mem_map.mp hn
      obtain ⟨entry, hentry, rfl⟩ := List.mem_map.mp hcs
      exact (hm entry hentry).2
    simpa only [pendingTotal, Dict.values, List.length_map, smul_eq_mul] using hbound
  calc m.pendingTotal ≤ (m.pendingCandidates.entries.map Prod.fst).length * maxPendingCandidates := hsum
    _ ≤ 2 ^ 64 * maxPendingCandidates := Nat.mul_le_mul_right _ hids
    _ = maxPendingCandidates * 2 ^ 64 := Nat.mul_comm _ _

/-- A stray candidate for `k` is delivered and handled. -/
def stray (k : Nat) : List ManagerEvent := [.deliver .unset (SignalingMessage.candidateAdd k []).serialize, .start 0]

private theorem stray_run [Aiortc] {m : Manager} (hsessions : m.sessions = Dict.empty) (hcreated : m.created = []) {k : Nat} (hk : k ≤ u64Max) :
    Machine.run next m (stray k) = m.bufferPendingCandidate ⟨k, []⟩ := by
  have hparse : SignalingMessage.parse (SignalingMessage.candidateAdd k []).serialize = some (some (.candidateAdd k [])) :=
    SignalingMessage.parse_serialize hk (by simp [SignalingMessage.identifier])
  have hnone : m.sessions.get? k = none := by rw [hsessions]; rfl
  obtain ⟨localId, relayOnly, sessions, pendingCandidates, heap, created, closing, pops⟩ := m
  obtain rfl : created = [] := hcreated
  simp only [stray, Machine.run_cons, Machine.run_nil, next, step, List.nil_append, List.getElem?_cons_zero, List.eraseIdx_cons_zero,
    handleSignal, hparse, SignalingMessage.connectionId, hnone]

/-- One more candidate under an id that has room. -/
private theorem pendingTotal_buffer {m : Manager} {c : CandidateAdd} (hroom : (m.buffered c.connectionId).length < maxPendingCandidates) :
    (m.bufferPendingCandidate c).pendingTotal = m.pendingTotal + 1 := by
  have hset := m.pendingCandidates.sum_values_set c.connectionId (m.buffered c.connectionId ++ [c]) List.length
  have hold : (m.pendingCandidates.get? c.connectionId).elim 0 List.length = (m.buffered c.connectionId).length := by
    unfold buffered
    cases m.pendingCandidates.get? c.connectionId <;> rfl
  rw [hold, List.length_append, List.length_singleton] at hset
  have hbuffer : (m.bufferPendingCandidate c).pendingCandidates =
      m.pendingCandidates.set c.connectionId (m.buffered c.connectionId ++ [c]) :=
    congrArg (m.pendingCandidates.set c.connectionId) (if_pos hroom)
  rw [pendingTotal, hbuffer, pendingTotal]
  omega

/-- Stray candidates that stay below the limit of each id are all kept. -/
private theorem strays_run [Aiortc] (ks : List Nat) {m : Manager} (hsessions : m.sessions = Dict.empty) (hcreated : m.created = [])
    (hu64 : ∀ k ∈ ks, k ≤ u64Max) (hroom : ∀ k, (m.buffered k).length + ks.count k ≤ maxPendingCandidates) :
    (Machine.run next m (ks.flatMap stray)).pendingTotal = m.pendingTotal + ks.length := by
  induction ks generalizing m with
  | nil => rfl
  | cons k ks ih =>
    have hk := hroom k
    rw [List.count_cons_self] at hk
    have hlt : (m.buffered k).length < maxPendingCandidates := by omega
    rw [List.flatMap_cons, Machine.run_append, stray_run hsessions hcreated (hu64 k List.mem_cons_self)]
    have hrest := ih (m := m.bufferPendingCandidate ⟨k, []⟩) hsessions hcreated (fun j hj => hu64 j (List.mem_cons_of_mem _ hj)) ?_
    · rw [hrest, pendingTotal_buffer hlt, List.length_cons]
      omega
    · intro j
      have hj := hroom j
      by_cases hjk : j = k
      · subst hjk
        have hbuffered : (m.bufferPendingCandidate ⟨j, []⟩).buffered j = m.buffered j ++ [⟨j, []⟩] := by
          simp only [bufferPendingCandidate, buffered, Dict.get?_set_self, Option.getD_some]
          exact if_pos hlt
        rw [hbuffered, List.length_append, List.length_singleton]
        omega
      · have hbuffered : (m.bufferPendingCandidate ⟨k, []⟩).buffered j = m.buffered j := by
          simp only [bufferPendingCandidate, buffered, Dict.get?_set_ne _ _ hjk]
        rw [List.count_cons_of_ne (Ne.symm hjk)] at hj
        rwa [hbuffered]

/-- The limit is one for each id: no smaller bound than all of them together holds. -/
theorem pendingTotal_bound [Aiortc] (localId : NetworkId) (relayOnly : Bool) (bound : Nat) :
    (∀ events, (Machine.run next (new localId relayOnly) events).pendingTotal ≤ bound) ↔ maxPendingCandidates * 2 ^ 64 ≤ bound := by
  constructor
  · intro h
    let ks := (List.replicate maxPendingCandidates (List.range (2 ^ 64))).flatten
    have hlength : ks.length = maxPendingCandidates * 2 ^ 64 := by
      rw [List.length_flatten, List.map_replicate, List.sum_replicate_nat, List.length_range]
    have hrun := strays_run ks (m := new localId relayOnly) rfl rfl ?_ ?_
    · have hle := h (ks.flatMap stray)
      rw [hrun, hlength] at hle
      exact Nat.le_trans (Nat.le_add_left _ _) hle
    · intro k hk
      obtain ⟨ids, hids, hk⟩ := List.mem_flatten.mp hk
      rw [(List.mem_replicate.mp hids).2, List.mem_range] at hk
      exact Nat.le_of_lt_succ hk
    · intro k
      have hcount : ks.count k = maxPendingCandidates * (List.range (2 ^ 64)).count k := by
        rw [List.count_flatten, List.map_replicate, List.sum_replicate_nat]
      have hone : (List.range (2 ^ 64)).count k ≤ 1 := List.nodup_iff_count_le_one.mp List.nodup_range k
      rw [hcount]
      calc (buffered (new localId relayOnly) k).length + maxPendingCandidates * (List.range (2 ^ 64)).count k
          = maxPendingCandidates * (List.range (2 ^ 64)).count k := Nat.zero_add _
        _ ≤ maxPendingCandidates * 1 := Nat.mul_le_mul_left _ hone
  · intro h events
    have hlimited : (Machine.run next (new localId relayOnly) events).Limited :=
      Machine.run_invariant_always limited_step (fun entry hentry => absurd hentry List.not_mem_nil) events
    exact Nat.le_trans (pendingTotal_le hlimited) h

/-! ### The entries of listeners -/

/-- `on_close` has not been called for the session. -/
def Unclosed (l : SessionLoop Caller) : Prop := ∀ f ∈ l.trace, f.isClose = false

/-- The event closes session `r`, a listener with id `k`. -/
def Closes [Aiortc] (m : Manager) (e : ManagerEvent) (r : Ref) (k : Nat) : Prop :=
  ∃ l l', m.heap[r]? = some l ∧ l.session.isDialer = false ∧ l.session.connectionId = k ∧ Unclosed l ∧
    (m.next e).heap[r]? = some l' ∧ ¬ Unclosed l'

/-- The handler that made the session is still inside its `create_answer`, after which it flushes. -/
def Admitting (l : SessionLoop Caller) : Prop :=
  ∃ senderId parsed, .newSession senderId parsed ∈ awaiting l ∧ parsed.connectionId = l.session.connectionId

/-- The condition on one event. While candidates are buffered under its id, the `create_answer` that
a listener was made for neither raises nor is overtaken by the listener's close; and no candidate
is buffered under the id of a listener that is open, but not in the map. -/
structure Attended [Aiortc] (m : Manager) (e : ManagerEvent) : Prop where
  returns : ∀ (r : Ref) (index : Nat) (l : SessionLoop Caller) (t : Task Caller) (senderId : NetworkId) (parsed : SignalingMessage),
    e = .session r (.resume index .raised) → m.heap[r]? = some l → l.tasks[index]? = some t → t.caller = .newSession senderId parsed →
      Unclosed l → m.pendingCandidates.get? parsed.connectionId = none
  lasts : ∀ (r : Ref) (k : Nat) (l : SessionLoop Caller), m.Closes e r k → m.heap[r]? = some l → Admitting l →
    m.pendingCandidates.get? k = none
  mapped : ∀ (k : Nat) (r : Ref) (l : SessionLoop Caller), m.Buffers k e → m.heap[r]? = some l → l.session.isDialer = false →
    l.session.connectionId = k → ¬ Unclosed l

/-- A listener that was not closed has no entry, or will flush it. -/
def Promised (m : Manager) : Prop :=
  ∀ (r : Ref) (l : SessionLoop Caller), m.heap[r]? = some l → l.session.isDialer = false → Unclosed l →
    m.pendingCandidates.get? l.session.connectionId = none ∨ Admitting l

private theorem unclosed_before [Aiortc] {l : SessionLoop Caller} {e : SessionEvent Caller} (h : Unclosed (l.next e)) : Unclosed l := by
  intro f hf
  refine h f ?_
  rw [SessionLoop.next, SessionLoop.step_trace]
  exact List.mem_append_left _ hf

/-- A coroutine of the manager that waits goes on waiting, unless it is the one that ends. -/
private theorem admitting_next [Aiortc] {l : SessionLoop Caller} (h : Admitting l) (e : SessionEvent Caller) :
    Admitting (l.next e) ∨ ∃ index reply t senderId parsed, e = .resume index reply ∧ l.tasks[index]? = some t ∧
      t.caller = .newSession senderId parsed ∧ parsed.connectionId = l.session.connectionId ∧
      (reply = .raised ∨ ∃ value, (l.step e).outcome = .returned t.caller value) := by
  obtain ⟨senderId, parsed, hmem, hid⟩ := h
  have hid' : parsed.connectionId = (l.next e).session.connectionId := hid.trans (l.next_identity e).1.symm
  have hawaits := awaits_step l e
  generalize (l.step e).outcome = o at hawaits ⊢
  have ended : ∀ {index reply t}, e = .resume index reply → l.tasks[index]? = some t → (t.caller :: awaiting (l.next e)).Perm (awaiting l) →
      (reply = .raised ∨ ∃ value, o = .returned t.caller value) → Admitting (l.next e) ∨ ∃ index reply t senderId parsed,
        e = .resume index reply ∧ l.tasks[index]? = some t ∧ t.caller = .newSession senderId parsed ∧
        parsed.connectionId = l.session.connectionId ∧ (reply = .raised ∨ ∃ value, o = .returned t.caller value) := by
    intro index reply t he ht hw hout
    rcases List.mem_cons.mp (hw.symm.subset hmem) with hcaller | hleft
    · exact Or.inr ⟨index, reply, t, senderId, parsed, he, ht, hcaller.symm, hid, hout⟩
    · exact Or.inl ⟨senderId, parsed, hleft, hid'⟩
  cases hawaits with
  | goesOn _ hw => exact Or.inl ⟨senderId, parsed, hw.symm.subset hmem, hid'⟩
  | begins c caller hw => exact Or.inl ⟨senderId, parsed, hw ▸ List.mem_append_left _ hmem, hid'⟩
  | atOnce c caller _ hw => exact Or.inl ⟨senderId, parsed, hw ▸ hmem, hid'⟩
  | returns index sdp t value ht hw => exact ended rfl ht hw (Or.inr ⟨value, rfl⟩)
  | raises index t ht hw => exact ended rfl ht hw (Or.inl rfl)

/-- The coroutine that made a session takes the buffer with it when it returns. -/
private theorem returned_empties [Aiortc] {m : Manager} {r : Ref} {l : SessionLoop Caller} {index : Nat} {reply : Reply}
    {t : Task Caller} {senderId : NetworkId} {parsed : SignalingMessage} {value : Option Text} (hl : m.heap[r]? = some l)
    (hcaller : t.caller = .newSession senderId parsed) (hout : (l.step (.resume index reply)).outcome = .returned t.caller value) :
    (m.next (.session r (.resume index reply))).pendingCandidates.get? parsed.connectionId = none := by
  have hrun : (m.next (.session r (.resume index reply))).pendingCandidates =
      (m.run r (.resume index reply)).1.pendingCandidates := rfl
  have hreturned : (m.onSession r (.resume index reply)).2.2 = .returned (.newSession senderId parsed) value := by
    rw [onSession_some _ hl, ← hcaller]
    exact hout
  rw [hrun, run_pendingCandidates, hreturned]
  exact Dict.get?_pop_self _ _

theorem promised_step [Aiortc] (m : Manager) (e : ManagerEvent) (hm : m.Promised) (he : m.Attended e) : (m.next e).Promised := by
  -- an entry does not come back under the id of an open listener
  have gone : ∀ (r : Ref) (l : SessionLoop Caller), m.heap[r]? = some l → l.session.isDialer = false → Unclosed l →
      m.pendingCandidates.get? l.session.connectionId = none → (m.next e).pendingCandidates.get? l.session.connectionId = none := by
    intro r l hl hlistener hopen hnone
    rcases pending_step m e l.session.connectionId with hsame | hgone | hbuffers
    · exact hsame.trans hnone
    · exact hgone
    · exact absurd hopen (he.mapped _ r l hbuffers hl hlistener rfl)
  -- a call takes nothing away from what waits
  have called : ∀ (l : SessionLoop Caller) (c : Call) (caller : Caller),
      (l.session.isDialer = false → Unclosed l →
        (m.next e).pendingCandidates.get? l.session.connectionId = none ∨ Admitting l) →
      (l.next (.call c caller)).session.isDialer = false → Unclosed (l.next (.call c caller)) →
        (m.next e).pendingCandidates.get? (l.next (.call c caller)).session.connectionId = none ∨ Admitting (l.next (.call c caller)) := by
    intro l c caller h hlistener hopen
    obtain ⟨hid, _, hdialer⟩ := l.next_identity (.call c caller)
    rcases h (hdialer ▸ hlistener) (unclosed_before hopen) with hnone | hadmitting
    · exact Or.inl (hid ▸ hnone)
    · rcases admitting_next hadmitting (.call c caller) with hadmitting | ⟨_, _, _, _, _, hcall, _⟩
      · exact Or.inr hadmitting
      · cases hcall
  have before : ∀ (r : Ref) (l : SessionLoop Caller), m.heap[r]? = some l → l.session.isDialer = false → Unclosed l →
      (m.next e).pendingCandidates.get? l.session.connectionId = none ∨ Admitting l := fun r l hl hlistener hopen =>
    (hm r l hl hlistener hopen).imp_left (gone r l hl hlistener hopen)
  refine (step_acts m e).sessions (P := fun _ l => l.session.isDialer = false → Unclosed l →
    (m.next e).pendingCandidates.get? l.session.connectionId = none ∨ Admitting l) before ?_ ?_ ?_ ?_ ?_
  · intro r ev l hev hc hl hlistener hopen
    obtain ⟨hid, _, hdialer⟩ := l.next_identity ev
    rw [hid]
    rw [hdialer] at hlistener
    have hopen' := unclosed_before hopen
    rcases hm r l hl hlistener hopen' with hnone | hadmitting
    · exact Or.inl (gone r l hl hlistener hopen' hnone)
    · rcases admitting_next hadmitting ev with hadmitting | ⟨index, reply, t, senderId, parsed, rfl, ht, hcaller, hparsed, hout⟩
      · exact Or.inr hadmitting
      · refine Or.inl ?_
        subst hev
        rcases hout with rfl | ⟨value, hout⟩
        · refine gone r l hl hlistener hopen' ?_
          rw [← hparsed]
          exact he.returns r index l t senderId parsed rfl hl ht hcaller hopen'
        · rw [← hparsed]
          exact returned_empties hl hcaller hout
  · intro k remoteId isDialer c caller hk hlistener _
    cases hk with
    | dial _ => cases hlistener
    | listen sdp _ _ => exact Or.inr ⟨_, .connectRequest k sdp, List.mem_singleton.mpr rfl, rfl⟩
  · exact fun senderId parsed r l _ _ hl => called l _ _ (before r l hl)
  · exact fun r l senderId parsed c rest _ h => called l _ _ h
  · intro _ r l h hlistener hopen
    obtain ⟨hid, _, hdialer⟩ := l.next_identity (.aclose (.member .none))
    rcases h (hdialer ▸ hlistener) (unclosed_before hopen) with hnone | hadmitting
    · exact Or.inl (hid ▸ hnone)
    · rcases admitting_next hadmitting (.aclose (.member .none)) with hadmitting | ⟨_, _, _, _, _, haclose, _⟩
      · exact Or.inr hadmitting
      · cases haclose

/-- When a listener closes, nothing stands under its id any more. -/
private theorem closed_empty [Aiortc] {m : Manager} {e : ManagerEvent} (hm : m.Promised) (he : m.Attended e) {r : Ref} {k : Nat}
    (hc : m.Closes e r k) : (m.next e).pendingCandidates.get? k = none := by
  obtain ⟨l, l', hl, hlistener, rfl, hopen, hl', hclosed⟩ := hc
  have hnone : m.pendingCandidates.get? l.session.connectionId = none := by
    rcases hm r l hl hlistener hopen with hnone | hadmitting
    · exact hnone
    · exact he.lasts r _ l ⟨l, l', hl, hlistener, rfl, hopen, hl', hclosed⟩ hl hadmitting
  rcases pending_step m e l.session.connectionId with hsame | hgone | hbuffers
  · exact hsame.trans hnone
  · exact hgone
  · exact absurd hopen (he.mapped _ r l hbuffers hl hlistener rfl)

private theorem run_empty [Aiortc] {m : Manager} {k : Nat} {events : List ManagerEvent} (hnone : m.pendingCandidates.get? k = none)
    (h : Machine.Along (fun m e => ¬ m.Buffers k e) next m events) : (Machine.run next m events).pendingCandidates.get? k = none := by
  have preserved : ∀ (m : Manager) (e : ManagerEvent), m.pendingCandidates.get? k = none → ¬ m.Buffers k e →
      (m.next e).pendingCandidates.get? k = none := by
    intro m e hm hbuffers
    rcases pending_step m e k with hsame | hgone | hbuffered
    · exact hsame.trans hm
    · exact hgone
    · exact absurd hbuffered hbuffers
  exact Machine.run_invariant preserved hnone h

/-- The limit bounds all the candidates buffered, by 64 for each of the ids there are and by
nothing less. And in every run whose steps meet the condition, when a listener closes no entry
is left under its id; what stands there later was buffered later. -/
theorem pending_candidates_bounded [Aiortc] (localId : NetworkId) (relayOnly : Bool) (events : List ManagerEvent)
    (h : Machine.Along Attended next (new localId relayOnly) events) :
    (∀ bound, (∀ run, (Machine.run next (new localId relayOnly) run).pendingTotal ≤ bound) ↔ maxPendingCandidates * 2 ^ 64 ≤ bound) ∧
    ∀ first e rest r k, events = first ++ e :: rest →
      (Machine.run next (new localId relayOnly) first).Closes e r k →
      Machine.Along (fun m e => ¬ m.Buffers k e) next (Machine.run next (new localId relayOnly) (first ++ [e])) rest →
      (Machine.run next (new localId relayOnly) events).pendingCandidates.get? k = none := by
  refine ⟨pendingTotal_bound localId relayOnly, ?_⟩
  rintro first e rest r k rfl hcloses hrest
  obtain ⟨hfirst, hstep, _⟩ := (Machine.along_append _ _ _ _ _).mp h
  have hpromised : (Machine.run next (new localId relayOnly) first).Promised :=
    Machine.run_invariant promised_step (fun r l hl => by simp [new] at hl) hfirst
  rw [List.append_cons, Machine.run_append]
  refine run_empty ?_ hrest
  rw [Machine.run_concat]
  exact closed_empty hpromised hstep hcloses

/-- The condition, where every session stands in the map, and none closes while anything is buffered. -/
private theorem attended_mapped [Aiortc] {m : Manager} {e : ManagerEvent} (hraised : ∀ r index, e ≠ .session r (.resume index .raised))
    (hmapped : m.heap.all (fun l => (m.sessions.get? l.session.connectionId).isSome) = true)
    (hlasts : ((m.next e).heap.all (fun l => l.trace.all fun f => ! f.isClose) || m.pendingCandidates.entries.isEmpty) = true) :
    m.Attended e where
  returns := fun r index _ _ _ _ he => absurd he (hraised r index)
  lasts := by
    rintro r k l ⟨_, l', _, _, _, _, hl', hclosed⟩ _ _
    rcases Bool.or_eq_true_iff.mp hlasts with hopen | hempty
    · refine absurd (fun f hf => ?_) hclosed
      simpa using List.all_eq_true.mp (List.all_eq_true.mp hopen l' (List.mem_of_getElem? hl')) f hf
    · rw [Dict.get?, List.isEmpty_iff.mp hempty]
      rfl
  mapped := by
    rintro k r l ⟨_, _, _, hnone⟩ hl _ rfl _
    have hsome := List.all_eq_true.mp hmapped l (List.mem_of_getElem? hl)
    rw [hnone] at hsome
    cases hsome

private theorem closes_of [Aiortc] {m : Manager} {e : ManagerEvent} {r : Ref} {k : Nat}
    (hopen : (m.heap[r]?.any fun l => ! l.session.isDialer && l.session.connectionId == k && l.trace.all fun f => ! f.isClose) = true)
    (hclosed : ((m.next e).heap[r]?.any fun l => l.trace.any Effect.isClose) = true) : m.Closes e r k := by
  obtain ⟨l, hl, hopen⟩ := (Option.any_eq_true _ _).mp hopen
  obtain ⟨l', hl', hclosed⟩ := (Option.any_eq_true _ _).mp hclosed
  obtain ⟨f, hf, hclose⟩ := List.any_eq_true.mp hclosed
  simp only [Bool.and_eq_true, Bool.not_eq_true', beq_iff_eq, List.all_eq_true] at hopen
  exact ⟨l, l', hl, hopen.1.1, hopen.1.2, hopen.2, hl', fun h => by cases (h f hf).symm.trans hclose⟩

/-- The candidate buffered before the request is flushed, and the listener closes. -/
theorem pending_candidates_bounded_flushed :
    letI : Aiortc := ⟨fun _ => true⟩
    let signal (message : SignalingMessage) : ManagerEvent := .deliver (.p2p 2) message.serialize
    let goOn : ManagerEvent := .session 0 (.resume 0 (.ok []))
    let m := Machine.run next (new (.p2p 1) false)
      [signal (.candidateAdd 7 "1".toList), .start 0, signal (.connectRequest 7 []), .start 0, goOn, goOn, goOn,
        signal (.connectError 7 (.member .ice)), .start 0]
    m.heap.map (fun l => l.session.state) = [.closed] ∧ m.pendingCandidates.get? 7 = none := by
  let _ : Aiortc := ⟨fun _ => true⟩
  intro signal goOn m
  refine ⟨by decide +kernel, (pending_candidates_bounded (.p2p 1) false _ ?_).2
    [signal (.candidateAdd 7 "1".toList), .start 0, signal (.connectRequest 7 []), .start 0, goOn, goOn, goOn,
      signal (.connectError 7 (.member .ice))] (.start 0) [] 0 7 rfl ?_ trivial⟩
  · show _ ∧ _ ∧ _ ∧ _ ∧ _ ∧ _ ∧ _ ∧ _ ∧ _ ∧ True
    refine ⟨attended_mapped ?_ ?_ ?_, attended_mapped ?_ ?_ ?_, attended_mapped ?_ ?_ ?_, attended_mapped ?_ ?_ ?_,
      attended_mapped ?_ ?_ ?_, attended_mapped ?_ ?_ ?_, attended_mapped ?_ ?_ ?_, attended_mapped ?_ ?_ ?_,
      attended_mapped ?_ ?_ ?_, trivial⟩
    all_goals first | decide +kernel | simp [signal, goOn]
  · exact closes_of (by decide +kernel) (by decide +kernel)

/-- `create_answer` raises: the candidate buffered for the listener stays, also when the listener has closed. -/
theorem abandoned_candidates_stay :
    letI : Aiortc := ⟨fun _ => true⟩
    let signal (message : SignalingMessage) : ManagerEvent := .deliver (.p2p 2) message.serialize
    let m := Machine.run next (new (.p2p 1) false)
      [signal (.candidateAdd 7 "1".toList), .start 0, signal (.connectRequest 7 []), .start 0, .session 0 (.resume 0 .raised),
        signal (.connectError 7 (.member .ice))]
    m.Closes (.start 0) 0 7 ∧ (m.next (.start 0)).sessions.get? 7 = none ∧
      (m.next (.start 0)).heap.map (fun l => (l.session.state, l.tasks.length)) = [(.closed, 0)] ∧
      (m.next (.start 0)).pendingCandidates.get? 7 = some [⟨7, "1".toList⟩] := by
  let _ : Aiortc := ⟨fun _ => true⟩
  exact ⟨closes_of (by decide +kernel) (by decide +kernel), by decide +kernel⟩

end Manager
end NetherNet
