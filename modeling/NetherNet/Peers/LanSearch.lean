import NetherNet.Api.HostSearch
import NetherNet.Library.Firsts
import NetherNet.Peers.LanSegment

/-! A search for hosts on a LAN: `discover` hands out each host whose Response has come, once,
with its first advertisement, and no other. -/
namespace NetherNet
open Library

/-! ### The generator -/

namespace HostSearch

/-- The `finally` has been entered. -/
def isOver (s : HostSearch) : Bool := s.stage = .leaving ∨ s.stage = .ended

/-- What was taken out of the queue was yielded, if it was the first from its id. -/
structure Yields (arrived : List DiscoveredHost) (s : HostSearch) : Prop where
  taken : ∃ taken, arrived = taken ++ s.discovered ∧ Firsts DiscoveredHost.networkId taken s.yielded
  seen : ∀ id, id ∈ s.seen ↔ id ∈ s.yielded.map DiscoveredHost.networkId

theorem Yields.hears {arrived : List DiscoveredHost} {s : HostSearch} (h : s.Yields arrived) (hosts : List DiscoveredHost) :
    (hosts.foldl onHostDiscovered s).Yields (arrived ++ hosts) := by
  induction hosts generalizing arrived s with
  | nil => rwa [List.append_nil]
  | cons host rest ih =>
    obtain ⟨taken, harrived, hfirsts⟩ := h.taken
    have hone : (s.onHostDiscovered host).Yields (arrived ++ [host]) :=
      ⟨⟨taken, by rw [harrived, List.append_assoc]; rfl, hfirsts⟩, h.seen⟩
    rw [List.append_cons, List.foldl_cons]
    exact ih hone

/-- The generator only broadcasts, and closes its endpoint. -/
def Calls (calls : List TransportEvent) : Prop := ∀ call ∈ calls, call = .broadcast ∨ call = .manager .aclose

/-- The queue and what was yielded stay. -/
theorem Yields.moved {arrived : List DiscoveredHost} {s : HostSearch} (h : s.Yields arrived) (stage : SearchStage) :
    Yields arrived { s with stage := stage } := ⟨h.taken, h.seen⟩

theorem leave_calls (s : HostSearch) : Calls s.leave.2 := fun _ hmem => Or.inr (List.mem_singleton.mp hmem)

theorem loop_moved (s : HostSearch) (late : Bool) :
    ∃ stage calls, s.loop late = ({ s with stage := stage }, calls) ∧ stage ≠ .ended ∧ Calls calls := by
  unfold loop
  split
  · exact ⟨.leaving, _, rfl, SearchStage.noConfusion, s.leave_calls⟩
  · exact ⟨.waiting, [], rfl, SearchStage.noConfusion, fun _ hmem => absurd hmem List.not_mem_nil⟩

theorem Yields.take {arrived : List DiscoveredHost} {s : HostSearch} {host : DiscoveredHost} {rest : List DiscoveredHost}
    (h : s.Yields arrived) (hs : s.discovered = host :: rest) (late : Bool) : (s.take host rest late).1.Yields arrived := by
  obtain ⟨taken, harrived, hfirsts⟩ := h.taken
  have htaken : arrived = (taken ++ [host]) ++ rest := by rw [harrived, hs, List.append_cons]
  unfold HostSearch.take
  split
  · next hseen =>
    have hkept : Yields arrived { s with discovered := rest } :=
      ⟨⟨taken ++ [host], htaken, hfirsts.repeated ((h.seen _).mp hseen)⟩, h.seen⟩
    obtain ⟨stage, _, hloop, _⟩ := loop_moved { s with discovered := rest } late
    rw [hloop]
    exact hkept.moved stage
  · next hnew =>
    refine ⟨⟨taken ++ [host], htaken, hfirsts.fresh fun hmem => hnew ((h.seen _).mpr hmem)⟩, fun id => ?_⟩
    rw [List.mem_cons, h.seen id, List.map_append, List.mem_append, List.map_singleton, List.mem_singleton]
    exact or_comm

theorem Yields.finish {arrived : List DiscoveredHost} {s : HostSearch} (h : s.Yields arrived) : s.finish.Yields arrived := by
  unfold HostSearch.finish
  split
  · exact h.moved .ended
  · exact h

/-- What one event makes of the generator, and what it does to its endpoint. -/
inductive Turns (s : HostSearch) : HostSearch × List TransportEvent → Prop where
  | moved (stage : SearchStage) (calls : List TransportEvent) (h : s.isOver = true → { s with stage := stage } = s)
      (hends : stage = .ended → s.stage = .ended) (hcalls : Calls calls) : Turns s ({ s with stage := stage }, calls)
  | took (host : DiscoveredHost) (rest : List DiscoveredHost) (late : Bool) (hs : s.discovered = host :: rest) (h : s.isOver = false) :
      Turns s (s.take host rest late)

theorem react_turns (s : HostSearch) (e : HostSearchEvent) : s.Turns (s.react e) := by
  have same : s.Turns (s, []) := Turns.moved s.stage [] (fun _ => rfl) id fun _ hmem => absurd hmem List.not_mem_nil
  have live : s.isOver = false → ∀ {s' : HostSearch}, s.isOver = true → s' = s := fun hlive _ hover => by rw [hlive] at hover; cases hover
  have leaves : s.isOver = false → s.Turns s.leave := fun hlive => Turns.moved .leaving _ (live hlive) (fun h => by cases h) s.leave_calls
  have loops : s.isOver = false → ∀ late, s.Turns (s.loop late) := by
    intro hlive late
    obtain ⟨stage, calls, hloop, hgoes, hcalls⟩ := loop_moved s late
    rw [hloop]
    exact Turns.moved stage calls (live hlive) (fun h => absurd h hgoes) hcalls
  cases e with
  | started raises late =>
    unfold react
    cases hstage : s.stage with
    | starting =>
      have hlive : s.isOver = false := by simp [isOver, hstage]
      have broadcasts : ∀ {calls}, Calls calls → Calls (.broadcast :: calls) := fun hcalls => List.forall_mem_cons.mpr ⟨Or.inl rfl, hcalls⟩
      cases raises with
      | true => exact Turns.moved .leaving _ (live hlive) (fun h => by cases h) (broadcasts s.leave_calls)
      | false =>
        obtain ⟨stage, calls, hloop, hgoes, hcalls⟩ := loop_moved s late
        simp only [Bool.false_eq_true, if_false, hloop]
        exact Turns.moved stage _ (live hlive) (fun h => absurd h hgoes) (broadcasts hcalls)
    | _ => exact same
  | got late =>
    unfold react
    cases hstage : s.stage with
    | waiting =>
      cases hs : s.discovered with
      | nil => exact same
      | cons host rest => exact Turns.took host rest late hs (by simp [isOver, hstage])
    | _ => exact same
  | asked late =>
    unfold react
    cases hstage : s.stage with
    | yielding => exact loops (by simp [isOver, hstage]) late
    | _ => exact same
  | timeout =>
    unfold react
    cases hstage : s.stage with
    | waiting => exact leaves (by simp [isOver, hstage])
    | _ => exact same
  | closed =>
    unfold react
    cases hstage : s.stage with
    | waiting | yielding => exact leaves (by simp [isOver, hstage])
    | _ => exact same

theorem take_calls (s : HostSearch) (host : DiscoveredHost) (rest : List DiscoveredHost) (late : Bool) : Calls (s.take host rest late).2 := by
  unfold HostSearch.take
  split
  · obtain ⟨_, _, hloop, _, hcalls⟩ := loop_moved { s with discovered := rest } late
    rw [hloop]
    exact hcalls
  · exact fun _ hmem => absurd hmem List.not_mem_nil

/-- More is yielded, unless the `finally` was entered. -/
structure Goes (s s' : HostSearch) : Prop where
  yielded : s.yielded <+: s'.yielded
  stops : s.isOver = true → s'.isOver = true ∧ s'.yielded = s.yielded

theorem Goes.refl (s : HostSearch) : s.Goes s := ⟨List.prefix_refl _, fun h => ⟨h, rfl⟩⟩

theorem Goes.trans {s s' s'' : HostSearch} (h : s.Goes s') (h' : s'.Goes s'') : s.Goes s'' := by
  refine ⟨h.yielded.trans h'.yielded, fun hover => ?_⟩
  obtain ⟨hover', hsame⟩ := h.stops hover
  obtain ⟨hover'', hsame'⟩ := h'.stops hover'
  exact ⟨hover'', hsame'.trans hsame⟩

theorem goes_react (s : HostSearch) (e : HostSearchEvent) : s.Goes (s.react e).1 := by
  have hturns := s.react_turns e
  generalize s.react e = out at hturns ⊢
  cases hturns with
  | moved stage _ h => exact ⟨List.prefix_refl _, fun hover => ⟨by rw [h hover]; exact hover, rfl⟩⟩
  | took host rest late hs hlive =>
    refine ⟨?_, fun hover => absurd (hlive.symm.trans hover) Bool.false_ne_true⟩
    unfold HostSearch.take
    split
    · obtain ⟨_, _, hloop, _⟩ := loop_moved { s with discovered := rest } late
      rw [hloop]
    · exact List.prefix_append _ _

/-- What was yielded stays accounted for. -/
theorem Yields.react {arrived : List DiscoveredHost} {s : HostSearch} (h : s.Yields arrived) (e : HostSearchEvent) :
    (s.react e).1.Yields arrived := by
  have hturns := s.react_turns e
  generalize s.react e = out at hturns ⊢
  cases hturns with
  | moved stage => exact h.moved stage
  | took host rest late hs _ => exact h.take hs late

theorem react_calls (s : HostSearch) (e : HostSearchEvent) : Calls (s.react e).2 := by
  have hturns := s.react_turns e
  generalize s.react e = out at hturns ⊢
  cases hturns with
  | moved _ _ _ _ hcalls => exact hcalls
  | took host rest late _ _ => exact s.take_calls host rest late

/-- The generator has not ended before `endpoint.aclose` has. -/
theorem react_ended (s : HostSearch) (e : HostSearchEvent) (h : (s.react e).1.stage = .ended) : s.stage = .ended := by
  have hturns := s.react_turns e
  generalize s.react e = out at hturns h
  cases hturns with
  | moved _ _ _ hends => exact hends h
  | took host rest late _ _ =>
    unfold HostSearch.take at h
    split at h
    · obtain ⟨stage, _, hloop, hgoes, _⟩ := loop_moved { s with discovered := rest } late
      rw [hloop] at h
      exact absurd h hgoes
    · cases h

theorem hears_stage (s : HostSearch) (hosts : List DiscoveredHost) : (hosts.foldl onHostDiscovered s).stage = s.stage := by
  induction hosts generalizing s with
  | nil => rfl
  | cons host rest ih => exact ih _

theorem goes_hears (s : HostSearch) (hosts : List DiscoveredHost) : s.Goes (hosts.foldl onHostDiscovered s) := by
  induction hosts generalizing s with
  | nil => exact Goes.refl s
  | cons host rest ih =>
    have hone : s.Goes (s.onHostDiscovered host) := ⟨List.prefix_refl _, fun hover => ⟨hover, rfl⟩⟩
    exact hone.trans (ih _)

theorem goes_finish (s : HostSearch) : s.Goes s.finish := by
  unfold finish
  split
  · exact ⟨List.prefix_refl _, fun _ => ⟨rfl, rfl⟩⟩
  · exact Goes.refl s

end HostSearch

/-! ### The generator and its endpoint -/

/-- The transports of a LAN, the one at `i` that of a generator. -/
structure LanSearch (ι : Type) where
  segment : LanSegment ι
  search : HostSearch := {}

inductive LanSearchEvent (ι : Type) where
  | lan (e : ι × TransportEvent)
  | search (e : HostSearchEvent)

/-- The host that a transport calls back with. -/
def LanOutput.host? : Option LanOutput → Option DiscoveredHost
  | some (.onHostDiscovered networkId data addr) => some ⟨networkId, data, addr⟩
  | _ => none

namespace LanSearch
variable {ι : Type} [DecidableEq ι] [Aiortc] [Primitives] (i : ι)

/-- The hosts that the endpoint of the generator is told of. -/
def arrivals (n : LanSearch ι) : LanSearchEvent ι → List DiscoveredHost
  | .lan e => if e.1 = i then ((n.segment.node i).shows e.2).filterMap LanOutput.host? else []
  | .search _ => []

/-- What happens on the LAN. -/
def acts (n : LanSearch ι) : LanSearchEvent ι → List (ι × TransportEvent)
  | .lan e => [e]
  | .search e => (n.search.react e).2.map fun call => (i, call)

/-- `LanTransport.close` at the end of `endpoint.aclose`. -/
def closes (n : LanSearch ι) : LanSearchEvent ι → Bool
  | .lan (j, .lanClosed) => j = i ∧ (n.segment.node i).closing ≠ 0
  | _ => false

/-- The generator on an event. -/
def searches (n : LanSearch ι) (e : LanSearchEvent ι) : HostSearch :=
  match e with
  | .lan _ =>
    let heard := (n.arrivals i e).foldl HostSearch.onHostDiscovered n.search
    if n.closes i e then heard.finish else heard
  | .search e => (n.search.react e).1

def next (n : LanSearch ι) (e : LanSearchEvent ι) : LanSearch ι :=
  { segment := Machine.run LanSegment.next n.segment (n.acts i e), search := n.searches i e }

/-- What arrives is authentic, and the socket of the generator's endpoint is bound once, when it starts. -/
def Authentic (n : LanSearch ι) : LanSearchEvent ι → Prop
  | .lan e => n.segment.Authentic e ∧ (e = (i, .started) → n.search.stage = .starting)
  | .search _ => True

/-! ### The hosts that arrive -/

omit [DecidableEq ι] in
/-- A host that a transport tells of is the sender of a Response to it. -/
private theorem received_of_shows {t : Transport} {e : TransportEvent} {host : DiscoveredHost}
    (h : host ∈ (t.shows e).filterMap LanOutput.host?) :
    ∃ datagram sender, e = .datagramReceived datagram host.address ∧ host.networkId = .p2p sender ∧
      t.lan.received datagram = some (.response sender host.advertisement) := by
  obtain ⟨networkId, data, addr⟩ := host
  have houtput : some (.onHostDiscovered networkId data addr) ∈ t.shows e := by
    obtain ⟨output, houtput, hhost⟩ := List.mem_filterMap.mp h
    cases output with
    | none => cases hhost
    | some output =>
      cases output with
      | onHostDiscovered => cases hhost; exact houtput
      | _ => cases hhost
  have sends : ∀ {packet : DiscoveryPacket} {target : Address},
      some (.onHostDiscovered networkId data addr) ∉ LanTransport.shown (t.lan.sendPacket packet target) := by
    intro packet target hmem
    obtain ⟨_, _, hsendto⟩ := LanTransport.mem_sendPacket hmem
    cases hsendto
  have signals : ∀ e', some (.onHostDiscovered networkId data addr) ∉ (t.onManager e').2 := by
    intro e' hmem
    obtain ⟨signal, _, hsent⟩ := List.mem_flatMap.mp hmem
    exact sends hsent
  cases e with
  | manager e =>
    cases e with
    | deliver senderId message => cases houtput
    | _ => exact absurd houtput (signals _)
  | datagramReceived datagram source =>
    have hcalled : .onHostDiscovered networkId data addr ∈ (t.lan.onDatagram datagram source).2.getD [] :=
      LanTransport.mem_shown.mp houtput
    cases hreceived : t.lan.received datagram with
    | none =>
      rw [LanTransport.onDatagram_dropped hreceived] at hcalled
      cases hcalled
    | some packet =>
      rw [LanTransport.onDatagram_received hreceived] at hcalled
      cases packet with
      | request senderId =>
        obtain ⟨_, _, hsendto⟩ := LanTransport.mem_handleRequest (LanTransport.mem_shown.mpr hcalled)
        cases hsendto
      | response senderId applicationData =>
        cases List.mem_singleton.mp hcalled
        exact ⟨datagram, senderId, rfl, rfl, hreceived⟩
      | message senderId recipientId messageData =>
        obtain ⟨_, _, _, _, hsignal⟩ := LanTransport.mem_handleMessage.mp hcalled
        cases hsignal
  | broadcast => exact absurd houtput sends
  | discover => exact absurd houtput sends
  | lanClosed =>
    rw [Transport.shows, Transport.react] at houtput
    split at houtput <;> cases houtput
  | _ => cases houtput

/-! ### One step -/

omit [Aiortc] in
private theorem unbound_onDatagram {t : LanTransport} (h : t.isOpen = false) (data : Bytes) (addr : Address) :
    (t.onDatagram data addr).1.isOpen = false := by
  cases hreceived : t.received data with
  | none => rw [LanTransport.onDatagram_dropped hreceived]; exact h
  | some packet =>
    rw [LanTransport.onDatagram_received hreceived, LanTransport.learn]
    split <;> exact h

omit [DecidableEq ι] in
/-- A socket that was closed stays closed. -/
private theorem unbound_transport {t : Transport} (h : t.lan.isOpen = false) {e : TransportEvent} (he : e ≠ .started) :
    (t.next e).lan.isOpen = false := by
  cases e with
  | manager e => cases e <;> exact h
  | datagramReceived data addr =>
    rw [(t.next_lan _).1]
    exact unbound_onDatagram h data addr
  | started => exact absurd rfl he
  | lanClosed =>
    rw [Transport.next, Transport.react]
    split
    · exact h
    · rfl
  | _ => exact h

private theorem unbound_next {s : LanSegment ι} (h : (s.node i).lan.isOpen = false) {e : ι × TransportEvent} (he : e ≠ (i, .started)) :
    ((s.next e).node i).lan.isOpen = false := by
  obtain ⟨j, e⟩ := e
  rw [LanSegment.next_node]
  split
  · next hij =>
    subst hij
    exact unbound_transport h fun heq => he (congrArg _ heq)
  · exact h

/-- The host is another transport, and its advertisement one that this transport had, cut to the cap. -/
def Real (advertised : ι → Bytes → Prop) (s : LanSegment ι) (host : DiscoveredHost) : Prop :=
  ∃ j advertisement, host.networkId = .p2p (s.localId j) ∧ s.localId j ≠ s.localId i ∧ advertised j advertisement ∧
    host.advertisement = advertisement.take DiscoveryPacket.responsePayloadMax

/-- The event sets an advertisement with the property only. -/
def Within (advertised : ι → Bytes → Prop) : LanSearchEvent ι → Prop
  | .lan e => ∀ advertisement, e.2 = .setAdvertisement (some advertisement) → advertised e.1 advertisement
  | .search _ => True

structure Sound (advertised : ι → Bytes → Prop) (n : LanSearch ι) (arrived : List DiscoveredHost) : Prop where
  wired : n.segment.Wired advertised fun _ => True
  real : ∀ host ∈ arrived, Real i advertised n.segment host
  yields : n.search.Yields arrived
  unbound : n.search.stage = .ended → (n.segment.node i).lan.isOpen = false

section Steps
variable [LawfulPrimitives] {advertised : ι → Bytes → Prop}

omit [LawfulPrimitives] in
/-- What the generator does on the LAN needs no leave. -/
private theorem acts_along {n : LanSearch ι} {e : LanSearchEvent ι} (ha : n.Authentic i e) (he : Within advertised e) :
    Machine.Along (fun s e => s.Authentic e ∧ s.Within advertised (fun _ => True) e) LanSegment.next n.segment (n.acts i e) := by
  cases e with
  | lan e => exact ⟨⟨ha.1, he, fun _ _ _ _ => trivial⟩, trivial⟩
  | search e =>
    have hcalls : ∀ act ∈ n.acts i (.search e), act.2 = .broadcast ∨ act.2 = .manager .aclose := by
      intro act hact
      obtain ⟨call, hcall, rfl⟩ := List.mem_map.mp hact
      exact n.search.react_calls e call hcall
    apply (Machine.along_of_forall LanSegment.next n.segment hcalls).mono
    rintro s ⟨j, call⟩ (rfl | rfl)
    · exact ⟨trivial, ⟨fun _ hset => (by cases hset), fun _ _ _ _ => trivial⟩⟩
    · exact ⟨trivial, ⟨fun _ hset => (by cases hset), fun _ _ _ _ => trivial⟩⟩

/-- A host that arrives is another transport. -/
private theorem real_arrivals {n : LanSearch ι} {arrived : List DiscoveredHost} (h : n.Sound i advertised arrived)
    {e : LanSearchEvent ι} (ha : n.Authentic i e) {host : DiscoveredHost} (hhost : host ∈ n.arrivals i e) :
    Real i advertised n.segment host := by
  cases e with
  | lan e =>
    obtain ⟨j, e⟩ := e
    rw [arrivals] at hhost
    split at hhost
    · next hij =>
      obtain rfl : j = i := hij
      obtain ⟨datagram, sender, rfl, hid, hreceived⟩ := received_of_shows hhost
      obtain ⟨k, packet, hvouched, hpacket, hsender, hother⟩ := LanSegment.received_wired h.wired ha.1 hreceived
      cases packet with
      | response _ advertisement =>
        obtain ⟨rfl, hdata⟩ := DiscoveryPacket.response.inj hpacket
        exact ⟨k, advertisement, hid.trans (congrArg _ hsender.symm), hother, hvouched.2, hdata⟩
      | _ => cases hpacket
    · cases hhost
  | search e => cases hhost

omit [LawfulPrimitives] in
private theorem yields_next {n : LanSearch ι} {arrived : List DiscoveredHost} (h : n.search.Yields arrived) (e : LanSearchEvent ι) :
    (n.searches i e).Yields (arrived ++ n.arrivals i e) := by
  cases e with
  | lan e =>
    have hheard := h.hears (n.arrivals i (.lan e))
    rw [searches]
    split
    · exact hheard.finish
    · exact hheard
  | search e =>
    rw [arrivals, List.append_nil]
    exact h.react e

omit [LawfulPrimitives] in
/-- Once the generator has ended, nothing binds the socket of its endpoint again. -/
private theorem unbound_run {n : LanSearch ι} {e : LanSearchEvent ι} (ha : n.Authentic i e) (hended : n.search.stage = .ended)
    (hunbound : (n.segment.node i).lan.isOpen = false) : ((n.next i e).segment.node i).lan.isOpen = false := by
  cases e with
  | lan e =>
    refine unbound_next i hunbound fun hstarted => ?_
    rw [ha.2 hstarted] at hended
    cases hended
  | search e =>
    have hcalls : ∀ act ∈ n.acts i (.search e), act ≠ (i, .started) := by
      rintro act hact rfl
      obtain ⟨call, hcall, heq⟩ := List.mem_map.mp hact
      rcases n.search.react_calls e call hcall with rfl | rfl <;> cases heq
    exact @Machine.run_invariant _ _ (fun _ act => act ≠ (i, .started)) LanSegment.next (fun s => (s.node i).lan.isOpen = false)
      (fun s act hs hact => unbound_next i hs hact) n.segment _ hunbound (Machine.along_of_forall _ _ hcalls)

omit [LawfulPrimitives] in
/-- The generator ends when the socket of its endpoint is closed. -/
private theorem ended_next {n : LanSearch ι} {e : LanSearchEvent ι} (h : (n.searches i e).stage = .ended) :
    n.search.stage = .ended ∨ ((n.next i e).segment.node i).lan.isOpen = false := by
  cases e with
  | lan e =>
    rw [searches] at h
    split at h
    · next hcloses =>
      obtain ⟨j, e⟩ := e
      cases e with
      | lanClosed =>
        obtain ⟨rfl, hclosing⟩ := of_decide_eq_true hcloses
        refine Or.inr ?_
        rw [next, acts, Machine.run_cons, Machine.run_nil, LanSegment.next_node, if_pos rfl, Transport.next, Transport.react,
          if_neg hclosing]
        rfl
      | _ => cases hcloses
    · rw [HostSearch.hears_stage] at h
      exact Or.inl h
  | search e => exact Or.inl (n.search.react_ended e h)

theorem sound_next {n : LanSearch ι} {arrived : List DiscoveredHost} (h : n.Sound i advertised arrived) {e : LanSearchEvent ι}
    (ha : n.Authentic i e) (he : Within advertised e) : (n.next i e).Sound i advertised (arrived ++ n.arrivals i e) := by
  refine ⟨LanSegment.wired_run h.wired (acts_along i ha he), fun host hhost => ?_, yields_next i h.yields e, fun hended => ?_⟩
  · have hreal : Real i advertised n.segment host := (List.mem_append.mp hhost).elim (h.real host) (real_arrivals i h ha)
    simpa only [Real, next, LanSegment.run_localId] using hreal
  · rcases ended_next i hended with hbefore | hclosed
    · exact unbound_run i ha hbefore (h.unbound hbefore)
    · exact hclosed

omit [LawfulPrimitives] in
theorem goes_next (n : LanSearch ι) (e : LanSearchEvent ι) : n.search.Goes (n.next i e).search := by
  cases e with
  | lan e =>
    have hheard := n.search.goes_hears (n.arrivals i (.lan e))
    rw [next, searches]
    split
    · exact hheard.trans (HostSearch.goes_finish _)
    · exact hheard
  | search e => exact n.search.goes_react e

end Steps

/-! ### Runs -/

/-- The transport was made with the advertisement, or told to advertise it in the run. -/
def Advertises (s : LanSegment ι) (events : List (LanSearchEvent ι)) (j : ι) (advertisement : Bytes) : Prop :=
  (s.node j).lan.advertisement = some advertisement ∨ .lan (j, .setAdvertisement (some advertisement)) ∈ events

/-- The hosts that have arrived, and what became of them. -/
structure Accounted (s : LanSegment ι) (events : List (LanSearchEvent ι)) (n : LanSearch ι) (arrived : List DiscoveredHost) : Prop where
  taken : ∃ taken, arrived = taken ++ n.search.discovered ∧ Firsts DiscoveredHost.networkId taken n.search.yielded
  real : ∀ host ∈ arrived, Real i (Advertises s events) s host
  unbound : n.search.stage = .ended → (n.segment.node i).lan.isOpen = false

private def asks : List (Side × TransportEvent) := [(.left, .started), (.right, .started), (.left, .broadcast)]

private def answers : List (Side × TransportEvent) := asks ++ [(.right, .datagramReceived (LanSegment.newest asks) LanSegment.source)]

end LanSearch
end NetherNet
