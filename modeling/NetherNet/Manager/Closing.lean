import NetherNet.Manager.Steps
import NetherNet.Session.Closing

/-! The manager over whole runs: its map holds open sessions only, and a session
that closes takes no other session out of the map. -/
namespace NetherNet
namespace Manager
open Library

/-- Every session in the map is open and stands under its own id. -/
def Mapped (m : Manager) : Prop :=
  ∀ k r, m.sessions.get? k = some r →
    ∃ l, m.heap[r]? = some l ∧ l.session.connectionId = k ∧ l.session.state ≠ .closed

private theorem mapped_onSession [Aiortc] (m : Manager) (r : Ref) (e : SessionEvent Caller) (hm : m.Mapped) :
    (m.onSession r e).1.Mapped := by
  cases hl : m.heap[r]? with
  | none => rwa [onSession_none e hl]
  | some l =>
    intro k j hj
    rw [onSession_heap e hl]
    rcases onSession_cases e hl with ⟨_, hopen, heq⟩ | ⟨_, _, _, heq⟩
    · rw [heq] at hj
      obtain ⟨old, hold, hid, hstate⟩ := hm k j hj
      split
      · next hjr =>
        rw [hjr, hl] at hold
        obtain rfl := Option.some.inj hold
        exact ⟨l.next e, rfl, (l.next_identity e).1.trans hid, hopen hstate⟩
      · exact ⟨old, hold, hid, hstate⟩
    · rw [heq] at hj
      obtain ⟨hne, hj⟩ := Dict.get?_of_pop _ hj
      obtain ⟨old, hold, hid, hstate⟩ := hm k j hj
      have hjr : j ≠ r := by
        rintro rfl
        rw [hl] at hold
        obtain rfl := Option.some.inj hold
        exact hne hid.symm
      rw [if_neg hjr]
      exact ⟨old, hold, hid, hstate⟩

private theorem mapped_createSession (m : Manager) (k : Nat) (remoteId : NetworkId) (isDialer : Bool) (hm : m.Mapped) :
    (m.createSession k remoteId isDialer).1.Mapped := by
  intro j r hj
  simp only [createSession, Dict.get?_set] at hj ⊢
  split at hj
  · next hjk =>
    obtain rfl := Option.some.inj hj
    exact ⟨_, by simp; rfl, hjk.symm, by simp [SessionLoop.fresh, Session.new]⟩
  · obtain ⟨l, hl, hid, hstate⟩ := hm j r hj
    obtain ⟨hlt, _⟩ := List.getElem?_eq_some_iff.mp hl
    exact ⟨l, by rw [List.getElem?_append_left hlt, hl], hid, hstate⟩

theorem Acts.mapped [Aiortc] {m₀ m : Manager} {e : ManagerEvent} {outs : List Output} (h : Acts m₀ e m outs)
    (hm : m₀.Mapped) : m.Mapped :=
  h.invariant hm (fun _ _ _ _ hm => hm) (fun _ _ => by intro k r hk; cases hk)
    (fun m k remoteId isDialer _ _ hm _ _ => mapped_createSession m k remoteId isDialer hm)
    (fun m r ev hm _ => mapped_onSession m r ev hm)

theorem mapped_new (localId : NetworkId) (relayOnly : Bool) : (new localId relayOnly).Mapped := by
  intro k r hk
  cases hk

theorem mapped_step [Aiortc] (m : Manager) (e : ManagerEvent) (hm : m.Mapped) : (m.next e).Mapped :=
  (step_acts m e).mapped hm

/-- Every reachable map is well formed, in every run. -/
theorem mapped_run [Aiortc] (localId : NetworkId) (relayOnly : Bool) (events : List ManagerEvent) :
    (Machine.run next (new localId relayOnly) events).Mapped :=
  Machine.run_invariant_always mapped_step (mapped_new localId relayOnly) events

/-! ### Ids of open sessions -/

/-- The connection id under which the event creates a session, if it does. -/
def creates (m : Manager) : ManagerEvent → Option Nat
  | .connect _ k => some k
  | .start index =>
    match m.created[index]? with
    | none => none
    | some signal =>
      match SignalingMessage.parse signal.2 with
      | some (some (.connectRequest k _)) => if m.sessions.get? k = none then some k else none
      | _ => none
  | _ => none

/-- No `create_offer` or `create_answer` returns to a closed session. -/
def Timely (m : Manager) : ManagerEvent → Prop
  | .session r ev => ∀ l, m.heap[r]? = some l → l.Timely ev
  | _ => True

/-- No session is created under the id of a session that is still open. -/
def NewId (m : Manager) (e : ManagerEvent) : Prop :=
  ∀ k, m.creates e = some k → ∀ l ∈ m.heap, l.session.connectionId = k → l.session.state = .closed

instance (m : Manager) (e : ManagerEvent) : Decidable (m.Timely e) :=
  match e with
  | .session r ev =>
    decidable_of_iff (∀ l ∈ m.heap[r]?, ¬ l.Late ev) (by simp only [Timely, SessionLoop.Timely, Option.mem_def])
  | .connect _ _ | .deliver _ _ | .start _ | .aclose | .teardown _ _ => .isTrue trivial

instance (m : Manager) (e : ManagerEvent) : Decidable (m.NewId e) :=
  decidable_of_iff (∀ k ∈ m.creates e, ∀ l ∈ m.heap, l.session.connectionId = k → l.session.state = .closed)
    (by simp only [NewId, Option.mem_def])

theorem Admits.creates {m : Manager} {e : ManagerEvent} {k : Nat} {remoteId : NetworkId} {isDialer : Bool} {c : Call}
    {caller : Caller} (h : m.Admits e k remoteId isDialer c caller) : m.creates e = some k := by
  cases h with
  | dial he =>
    subst he
    rfl
  | listen sdp hs hk =>
    obtain ⟨index, text, rfl, hcreated, hparse⟩ := hs
    simp only [Manager.creates, hcreated, hparse, hk, if_pos]

/-- Open sessions have different ids, and a session that closed took at most itself out of the map. -/
structure Sound (m : Manager) : Prop where
  mapped : m.Mapped
  unique : ∀ (r r' : Ref) (l l' : SessionLoop Caller), m.heap[r]? = some l → m.heap[r']? = some l' → l.session.state ≠ .closed →
    l'.session.state ≠ .closed → l.session.connectionId = l'.session.connectionId → r = r'
  popped : ∀ p ∈ m.pops, p.2 = none ∨ p.2 = some p.1

/-- A session that is open after an event that is not late was open before it. -/
private theorem open_before [Aiortc] {l : SessionLoop Caller} {ev : SessionEvent Caller} (ht : l.Timely ev)
    (h : (l.next ev).session.state ≠ .closed) : l.session.state ≠ .closed :=
  fun hs => h (l.closed_step ev hs ht).1

private theorem sound_onSession [Aiortc] (m : Manager) (r : Ref) (ev : SessionEvent Caller) (hm : m.Sound)
    (ht : ∀ l, m.heap[r]? = some l → l.Timely ev) : (m.onSession r ev).1.Sound := by
  have hmapped := mapped_onSession m r ev hm.mapped
  cases hl : m.heap[r]? with
  | none => rwa [onSession_none ev hl]
  | some l =>
    have hback : ∀ (j : Ref) (l' : SessionLoop Caller), (m.onSession r ev).1.heap[j]? = some l' → l'.session.state ≠ .closed →
        ∃ old, m.heap[j]? = some old ∧ old.session.state ≠ .closed ∧
          old.session.connectionId = l'.session.connectionId := by
      intro j l' hj hs
      rw [onSession_heap ev hl] at hj
      split at hj
      · next hjr =>
        obtain rfl := Option.some.inj hj
        exact ⟨l, hjr ▸ hl, open_before (ht l hl) hs, (l.next_identity ev).1.symm⟩
      · exact ⟨l', hj, hs, rfl⟩
    refine ⟨hmapped, ?_, ?_⟩
    · intro j j' l₁ l₂ h₁ h₂ hs₁ hs₂ hid
      obtain ⟨old₁, hold₁, hopen₁, hid₁⟩ := hback j l₁ h₁ hs₁
      obtain ⟨old₂, hold₂, hopen₂, hid₂⟩ := hback j' l₂ h₂ hs₂
      exact hm.unique j j' old₁ old₂ hold₁ hold₂ hopen₁ hopen₂ (hid₁.trans (hid.trans hid₂.symm))
    · rcases onSession_cases ev hl with ⟨_, _, heq⟩ | ⟨hopen, _, _, heq⟩
      · rw [heq]
        exact hm.popped
      · rw [heq]
        intro p hp
        rcases List.mem_append.mp hp with hp | hp
        · exact hm.popped p hp
        · -- the entry under the id of `r` is an open session of that id, so it is `r`
          obtain rfl := List.mem_singleton.mp hp
          cases hget : m.sessions.get? l.session.connectionId with
          | none => exact Or.inl rfl
          | some j =>
            obtain ⟨l', hl', hid, hopen'⟩ := hm.mapped _ j hget
            have hjr := hm.unique j r l' l hl' hl hopen' hopen hid
            exact Or.inr (congrArg some hjr)

theorem sound_createSession (m : Manager) (k : Nat) (remoteId : NetworkId) (isDialer : Bool) (hm : m.Sound)
    (hnew : ∀ l ∈ m.heap, l.session.connectionId = k → l.session.state = .closed) :
    (m.createSession k remoteId isDialer).1.Sound := by
  have hback : ∀ (j : Ref) (l : SessionLoop Caller), (m.createSession k remoteId isDialer).1.heap[j]? = some l →
      j = m.heap.length ∧ l.session.connectionId = k ∨ m.heap[j]? = some l := by
    intro j l hj
    simp only [createSession, List.getElem?_append] at hj
    split at hj
    · exact Or.inr hj
    · next hlt =>
      have hj' := List.getElem?_eq_some_iff.mp hj
      obtain ⟨hone, heq⟩ := hj'
      have hz : j - m.heap.length = 0 := by simpa using hone
      refine Or.inl ⟨Nat.le_antisymm (Nat.sub_eq_zero_iff_le.mp hz) (Nat.le_of_not_lt hlt), ?_⟩
      simp only [hz, List.getElem_cons_zero] at heq
      rw [← heq]
      rfl
  refine ⟨mapped_createSession m k remoteId isDialer hm.mapped, ?_, hm.popped⟩
  intro j j' l l' hj hj' hs hs' hid
  rcases hback j l hj with ⟨rfl, hk⟩ | hold
  · rcases hback j' l' hj' with ⟨rfl, _⟩ | hold'
    · rfl
    · exact absurd (hnew l' (List.mem_of_getElem? hold') (hid.symm.trans hk)) hs'
  · rcases hback j' l' hj' with ⟨rfl, hk⟩ | hold'
    · exact absurd (hnew l (List.mem_of_getElem? hold) (hid.trans hk)) hs
    · exact hm.unique j j' l l' hold hold' hs hs' hid

private theorem timely_of_call [Aiortc] (l : SessionLoop Caller) {ev : SessionEvent Caller}
    (h : ev.isCall = true ∨ ∃ error, ev = .aclose error) : l.Timely ev := by
  intro hlate
  cases ev with
  | resume index reply => rcases h with h | ⟨error, h⟩ <;> cases h
  | _ => exact hlate

theorem Acts.sound [Aiortc] {m₀ m : Manager} {e : ManagerEvent} {outs : List Output} (h : Acts m₀ e m outs)
    (hm : m₀.Sound) (ht : m₀.Timely e) (hn : m₀.NewId e) : m.Sound := by
  apply h.invariant hm
  · exact fun m created closing pendingCandidates hm => ⟨hm.mapped, hm.unique, hm.popped⟩
  · exact fun m hm => ⟨(fun k r hk => by cases hk), hm.unique, hm.popped⟩
  · intro m k remoteId isDialer c caller hm heap hk
    exact sound_createSession m k remoteId isDialer hm (heap ▸ hn k hk.creates)
  · rintro m r ev hm (hcall | haclose | ⟨rfl, heap⟩)
    · exact sound_onSession m r ev hm fun l _ => timely_of_call l (Or.inl hcall)
    · exact sound_onSession m r ev hm fun l _ => timely_of_call l (Or.inr haclose)
    · exact sound_onSession m r ev hm fun l hl => ht l (heap ▸ hl)

theorem sound_step [Aiortc] (m : Manager) (e : ManagerEvent) (hm : m.Sound) (h : m.Timely e ∧ m.NewId e) :
    (m.next e).Sound := (step_acts m e).sound hm h.1 h.2

theorem sound_new (localId : NetworkId) (relayOnly : Bool) : (new localId relayOnly).Sound :=
  ⟨mapped_new localId relayOnly, (fun r r' l l' hr => by simp [new] at hr), (fun p hp => by cases hp)⟩

theorem sound_run [Aiortc] {localId : NetworkId} {relayOnly : Bool} {events : List ManagerEvent}
    (h : Machine.Along (fun m e => m.Timely e ∧ m.NewId e) next (new localId relayOnly) events) :
    (Machine.run next (new localId relayOnly) events).Sound :=
  Machine.run_invariant sound_step (sound_new localId relayOnly) h

/-! ### Closing is final -/

/-- In every run in which no `create_offer` or `create_answer` returns to a closed
session and no session is created under the id of an open one: closing is final,
`on_close` is called once and after any `on_open`, and a session that closes takes
no other session out of the map. -/
theorem closing_is_final [Aiortc] :
    (∀ (κ : Type) (connectionId : Nat) (localId remoteId : NetworkId) (isDialer relayOnly : Bool)
        (before after : List (SessionEvent κ)) (l l' : SessionLoop κ),
      Machine.Along SessionLoop.Timely SessionLoop.next
        (.fresh (Session.new connectionId localId remoteId isDialer relayOnly)) (before ++ after) →
      Machine.run SessionLoop.next (.fresh (Session.new connectionId localId remoteId isDialer relayOnly)) before = l →
      Machine.run SessionLoop.next l after = l' →
      (l.session.state = .closed → l'.session.state = .closed ∧ l'.session.scheduled = [] ∧
        ∃ rest, l'.trace = l.trace ++ rest ∧ ∀ f ∈ rest, f.quiet = true) ∧
      l'.trace.countP Effect.isClose = (if l'.session.state = .closed then 1 else 0) ∧
      l'.trace.count .onOpen ≤ 1 ∧
      ∀ before error after, l'.trace = before ++ .onClose error :: after → .onOpen ∉ after) ∧
    (∀ (localId : NetworkId) (relayOnly : Bool) (events : List ManagerEvent),
      Machine.Along (fun m e => m.Timely e ∧ m.NewId e) next (new localId relayOnly) events →
      ∀ p ∈ (Machine.run next (new localId relayOnly) events).pops, p.2 = none ∨ p.2 = some p.1) := by
  refine ⟨?_, fun localId relayOnly events h => (sound_run h).popped⟩
  rintro κ connectionId localId remoteId isDialer relayOnly before after l l' h rfl rfl
  obtain ⟨hbefore, hafter⟩ := (Machine.along_append _ _ _ before after).mp h
  have hlife := SessionLoop.lifecycle_run
    (SessionLoop.lifecycle_run (SessionLoop.lifecycle_fresh _ rfl rfl rfl) hbefore) hafter
  refine ⟨?_, hlife.closes, ?_, fun _ _ _ hsplit => hlife.opens_first hsplit⟩
  · intro hs
    obtain ⟨hclosed, hrest⟩ := SessionLoop.closed_run hs hafter
    exact ⟨hclosed, hlife.disarmed hclosed, hrest⟩
  · refine Nat.le_trans hlife.opened ?_
    split <;> omega

/-- A dialer whose response never comes, closed by its timer and then closed again. -/
theorem closing_is_final_dialed :
    letI : Aiortc := ⟨fun _ => true⟩
    let dialer : SessionLoop Unit := .fresh (Session.new 7 (.p2p 1) (.p2p 2) true false)
    let l := Machine.run SessionLoop.next dialer [.call .start (), .resume 0 (.ok []), .resume 0 (.ok []), .timer 0]
    let l' := Machine.run SessionLoop.next l [.close (.member .ice) true]
    let m := Machine.run next (new (.p2p 1) false) [.connect (.p2p 2) 7, .session 0 (.close (.member .none) false)]
    l'.session.state = .closed ∧ l'.trace.countP Effect.isClose = 1 ∧ ∀ p ∈ m.pops, p.2 = none ∨ p.2 = some p.1 := by
  intro dialer l l' m
  let _ : Aiortc := ⟨fun _ => true⟩
  obtain ⟨sessions, manager⟩ := closing_is_final
  have hs : l.session.state = .closed := by decide +kernel
  have timely : Machine.Along SessionLoop.Timely SessionLoop.next dialer
      ([.call .start (), .resume 0 (.ok []), .resume 0 (.ok []), .timer 0] ++ [.close (.member .ice) true]) := by
    refine ⟨id, ?_, ?_, id, id, trivial⟩
    · rintro ⟨t, _, _, hclosed⟩
      cases hclosed
    · rintro ⟨t, _, _, hclosed⟩
      cases hclosed
  obtain ⟨final, count, _, _⟩ := sessions Unit 7 (.p2p 1) (.p2p 2) true false _ _ l l' timely rfl rfl
  obtain ⟨hs', _, _⟩ := final hs
  refine ⟨hs', by rw [count, if_pos hs'], manager (.p2p 1) false _ ⟨⟨trivial, ?_⟩, ⟨fun _ _ => id, ?_⟩, trivial⟩⟩
  · intro k _ l hl
    cases hl
  · intro k hk
    cases hk

/-- The run in which `create_offer` returns after `close`: the closed session goes back
to OFFER_SENT, sends its CONNECTREQUEST and arms a timer. -/
theorem late_offer_reopens :
    letI : Aiortc := ⟨fun _ => true⟩
    let dialer : SessionLoop Unit := .fresh (Session.new 7 (.p2p 1) (.p2p 2) true false)
    let l := Machine.run SessionLoop.next dialer [.call .start (), .close (.member .none) false]
    let l' := Machine.run SessionLoop.next l [.resume 0 (.ok []), .resume 0 (.ok [])]
    l.session.state = .closed ∧ l'.session.state ≠ .closed ∧ l'.session.scheduled ≠ [] ∧
      .sendSignal (SignalingMessage.connectRequest 7 []).serialize ∈ l'.trace.drop l.trace.length := by
  decide +kernel

end Manager
end NetherNet
