import Mathlib.Data.List.TakeWhile
import NetherNet.Api.Registry
import NetherNet.Api.Streams

/-! Whose packets a connection yields, and which connections the server's handler gets:
packets are routed by connection id, over ids that a peer may use again. -/
namespace NetherNet
open Library

def Effect.packet? : Effect → Option Bytes
  | .onPacket data => some data
  | _ => none

/-- The packets that the callbacks were given, in order. -/
def packetsOf (callbacks : List Effect) : List Bytes := callbacks.filterMap Effect.packet?

theorem packetsOf_append (callbacks more : List Effect) : packetsOf (callbacks ++ more) = packetsOf callbacks ++ packetsOf more :=
  List.filterMap_append

theorem packetsOf_packets (packets : List Bytes) : packetsOf (packets.map .onPacket) = packets := by
  induction packets with
  | nil => rfl
  | cons data packets ih => exact congrArg (data :: ·) ih

/-- Where a list is split stays, once it is. -/
private theorem split_later {callbacks : List Effect} {p : Effect → Bool} (h : ∃ f ∈ callbacks, p f = false) (more : List Effect) :
    (callbacks ++ more).takeWhile p = callbacks.takeWhile p ∧ (callbacks ++ more).dropWhile p = callbacks.dropWhile p ++ more := by
  induction callbacks with
  | nil =>
    obtain ⟨f, hf, _⟩ := h
    cases hf
  | cons g rest ih =>
    rw [List.cons_append, List.takeWhile_cons, List.takeWhile_cons, List.dropWhile_cons, List.dropWhile_cons]
    cases hg : p g with
    | false => exact ⟨rfl, rfl⟩
    | true =>
      have hrest : ∃ f ∈ rest, p f = false := by
        obtain ⟨f, hf, hp⟩ := h
        rcases List.mem_cons.mp hf with rfl | hf
        · rw [hg] at hp
          cases hp
        · exact ⟨f, hf, hp⟩
      obtain ⟨htake, hdrop⟩ := ih hrest
      rw [if_pos rfl, if_pos rfl, if_pos rfl, if_pos rfl, htake, hdrop]
      exact ⟨rfl, rfl⟩

namespace SessionLoop

/-- The packets that belong into the session's connection: for a listener, of those that came
before it opened only the first ones, as many as are kept. -/
def routed (l : SessionLoop Caller) : List Bytes :=
  if l.session.isDialer then packetsOf l.callbacks
  else (packetsOf (l.callbacks.takeWhile (· ≠ .onOpen))).take Endpoint.maxPendingPackets ++
    packetsOf (l.callbacks.dropWhile (· ≠ .onOpen))

theorem routed_later {l l' : SessionLoop Caller} (hj : l.Joined) (hd : l'.session.isDialer = l.session.isDialer) {more : List Effect}
    (hc : l'.callbacks = l.callbacks ++ more) : l'.routed = l.routed ++ packetsOf more := by
  unfold routed
  rw [hd, hc]
  cases hdialer : l.session.isDialer with
  | true =>
    rw [if_pos rfl, if_pos rfl]
    exact packetsOf_append _ _
  | false =>
    have hopen : ∃ f ∈ l.callbacks, decide (f ≠ .onOpen) = false :=
      ⟨.onOpen, (joined_listener hdialer).mp hj, decide_eq_false fun h => h rfl⟩
    obtain ⟨htake, hdrop⟩ := split_later hopen more
    rw [if_neg Bool.false_ne_true, if_neg Bool.false_ne_true, htake, hdrop, packetsOf_append, List.append_assoc]

theorem routed_opened {l l' : SessionLoop Caller} (hj : ¬ l.Joined) (hdialer : l.session.isDialer = false)
    (hd : l'.session.isDialer = l.session.isDialer) (hc : l'.callbacks = l.callbacks ++ [.onOpen]) :
    l'.routed = (packetsOf l.callbacks).take Endpoint.maxPendingPackets := by
  have hnone : ∀ f ∈ l.callbacks, decide (f ≠ .onOpen) = true := by
    refine fun f hf => decide_eq_true fun heq => hj ((joined_listener hdialer).mpr ?_)
    rwa [heq] at hf
  rw [routed, hd, hdialer, if_neg Bool.false_ne_true, hc, List.takeWhile_append_of_pos hnone, List.dropWhile_append_of_pos hnone]
  exact (congrArg (· ++ _) (congrArg (List.take _ ∘ packetsOf) (List.append_nil _))).trans (List.append_nil _)

/-- Before its local description is set a dialer has no packets. -/
theorem Attached.unheard {l : SessionLoop Caller} (h : l.Attached) (hdialer : l.session.isDialer = true) (hj : ¬ l.Joined) :
    packetsOf l.callbacks = [] := by
  have hnone : l.session.pc.localDescription = none := by
    cases hdescription : l.session.pc.localDescription with
    | none => rfl
    | some sdp => exact absurd ((joined_dialer hdialer).mpr (by rw [hdescription]; rfl)) hj
  refine List.filterMap_eq_nil_iff.mpr fun f hf => ?_
  obtain ⟨hmem, hcallback⟩ := List.mem_filter.mp hf
  have hclose := h.opening.silent hnone f hmem hcallback
  cases f <;> first | rfl | cases hclose

/-- The condition on what a session calls: it delivers no packet after its close, and a
listener that closes without having opened has delivered none. -/
structure Tidy (l : SessionLoop Caller) : Prop where
  late : packetsOf (l.callbacks.dropWhile (!·.isClose)) = []
  early : l.session.isDialer = false → (∃ f ∈ l.callbacks, f.isClose = true) →
    .onOpen ∈ l.callbacks.takeWhile (!·.isClose) ∨ packetsOf (l.callbacks.takeWhile (!·.isClose)) = []

instance (l : SessionLoop Caller) : Decidable l.Tidy :=
  decidable_of_iff (packetsOf (l.callbacks.dropWhile (!·.isClose)) = [] ∧
      (l.session.isDialer = false → (∃ f ∈ l.callbacks, f.isClose = true) →
        .onOpen ∈ l.callbacks.takeWhile (!·.isClose) ∨ packetsOf (l.callbacks.takeWhile (!·.isClose)) = []))
    ⟨fun h => ⟨h.1, h.2⟩, fun h => ⟨h.late, h.early⟩⟩

theorem Tidy.before {l l' : SessionLoop Caller} (h : l'.Tidy) (hd : l'.session.isDialer = l.session.isDialer) {more : List Effect}
    (hc : l'.callbacks = l.callbacks ++ more) : l.Tidy := by
  by_cases hclosed : ∃ f ∈ l.callbacks, f.isClose = true
  · obtain ⟨f, hf, hclose⟩ := hclosed
    obtain ⟨htake, hdrop⟩ := @split_later l.callbacks (!·.isClose) ⟨f, hf, by simp [hclose]⟩ more
    refine ⟨?_, fun hdialer _ => ?_⟩
    · have hlate := h.late
      rw [hc, hdrop, packetsOf_append] at hlate
      exact (List.append_eq_nil_iff.mp hlate).1
    · rw [← htake, ← hc]
      exact h.early (hd.trans hdialer) ⟨f, by rw [hc]; exact List.mem_append_left _ hf, hclose⟩
  · refine ⟨?_, fun _ hsome => absurd hsome hclosed⟩
    rw [List.dropWhile_eq_nil_iff.mpr]
    · rfl
    · refine fun f hf => ?_
      rw [Bool.not_eq_true']
      exact Bool.eq_false_iff.mpr fun hclose => hclosed ⟨f, hf, hclose⟩

/-- A closed session delivers none. -/
theorem Tidy.silent {l l' : SessionLoop Caller} (h : l'.Tidy) {error : ErrorCode} (hmem : .onClose error ∈ l.callbacks)
    {packets : List Bytes} (hc : l'.callbacks = l.callbacks ++ packets.map .onPacket) : packets = [] := by
  have hlate := h.late
  rw [hc, (split_later ⟨_, hmem, rfl⟩ _).2, packetsOf_append, packetsOf_packets] at hlate
  exact (List.append_eq_nil_iff.mp hlate).2

/-- A session that closes without a connection has delivered no packet. -/
theorem Tidy.quiet {l l' : SessionLoop Caller} (h : l'.Tidy) (ha : l.Attached) (hd : l'.session.isDialer = l.session.isDialer)
    {error : ErrorCode} (hc : l'.callbacks = l.callbacks ++ [.onClose error]) (hj : ¬ l.Joined) : packetsOf l.callbacks = [] := by
  cases hdialer : l.session.isDialer with
  | true => exact ha.unheard hdialer hj
  | false =>
    have hclose : ∃ f ∈ l'.callbacks, f.isClose = true :=
      ⟨_, by rw [hc]; exact List.mem_append_right _ (List.mem_singleton_self _), rfl⟩
    rcases h.early (hd.trans hdialer) hclose with hopen | hnone
    · have hmem := (List.takeWhile_sublist _).subset hopen
      rw [hc, List.mem_append] at hmem
      exact absurd ((joined_listener hdialer).mpr (hmem.resolve_right (by simp))) hj
    · have hall : packetsOf l'.callbacks = [] := by
        rw [← @List.takeWhile_append_dropWhile _ (!·.isClose) l'.callbacks, packetsOf_append, hnone, h.late]
        rfl
      rw [hc, packetsOf_append] at hall
      exact (List.append_eq_nil_iff.mp hall).1

/-- The session is open and has no connection yet. -/
def Unconnected (l : SessionLoop Caller) : Prop := l.session.state ≠ .closed ∧ ¬ l.Joined

end SessionLoop

namespace Endpoint

/-- What `_pending_packets` holds of the packets that came. -/
def buffered (packets : List Bytes) : Option (List Bytes) :=
  if packets = [] then none else some (packets.take maxPendingPackets)

theorem buffered_getD (packets : List Bytes) : (buffered packets).getD [] = packets.take maxPendingPackets := by
  unfold buffered
  split
  · next h => rw [h]; rfl
  · rfl

theorem buffered_concat (packets : List Bytes) (data : Bytes) :
    some (if (packets.take maxPendingPackets).length < maxPendingPackets then packets.take maxPendingPackets ++ [data]
      else packets.take maxPendingPackets) = buffered (packets ++ [data]) := by
  have hne : packets ++ [data] ≠ [] := by simp
  rw [buffered, if_neg hne, List.length_take]
  refine congrArg some ?_
  split
  · next hlt =>
    have hlen : packets.length < maxPendingPackets := by omega
    rw [List.take_of_length_le (Nat.le_of_lt hlen), List.take_of_length_le]
    rw [List.length_append]
    exact hlen
  · rw [List.take_append_of_le_length (by omega)]

/-- The sessions of some connections. -/
def sessionsOf (e : Endpoint) (conns : List ConnRef) : List Ref := conns.filterMap fun c => (e.connections[c]?).map (·.session)

/-- A connection has the packets of its own session, and packets are buffered for the open
sessions only that have no connection yet. -/
structure Delivered (m : Manager) (e : Endpoint) : Prop where
  enqueued : ∀ (c : ConnRef) (conn : Connection) (l : SessionLoop Caller), e.connections[c]? = some conn →
    m.heap[conn.session]? = some l → conn.enqueued = l.routed
  waiting : ∀ (r : Ref) (l : SessionLoop Caller), m.heap[r]? = some l → l.Unconnected →
    e.pendingPackets.get? l.session.connectionId = buffered (packetsOf l.callbacks)
  pending : ∀ (k : Nat) (buffer : List Bytes), e.pendingPackets.get? k = some buffer →
    ∃ (r : Ref) (l : SessionLoop Caller), m.heap[r]? = some l ∧ l.Unconnected ∧ l.session.connectionId = k

section Steps
variable {m m' : Manager} {e e' : Endpoint} {r : Ref} {l l' : SessionLoop Caller}

/-- Nothing is buffered under the id of an open session that has its connection. -/
theorem Delivered.unbuffered (h : Delivered m e) (hm : m.Sound) (hl : m.heap[r]? = some l) (hs : l.session.state ≠ .closed)
    (hj : l.Joined) : e.pendingPackets.get? l.session.connectionId = none := by
  cases hbuffer : e.pendingPackets.get? l.session.connectionId with
  | none => rfl
  | some buffer =>
    obtain ⟨r₀, l₀, hl₀, ⟨hopen, hwaits⟩, hid⟩ := h.pending _ buffer hbuffer
    obtain rfl := hm.unique r₀ r l₀ l hl₀ hl hopen hs hid
    obtain rfl := Option.some.inj (hl₀.symm.trans hl)
    exact absurd hj hwaits

/-- The rule for an event of one session: what it does to the connection of this session and
under its id is shown, and everything else stays. -/
private theorem Delivered.moves (h : Delivered m e) (hm : m.Sound) (hg : Goes m m' r l l')
    (own : ∀ (c : ConnRef) (conn : Connection), e'.connections[c]? = some conn → conn.session = r → conn.enqueued = l'.routed)
    (others : ∀ (c : ConnRef) (conn' : Connection), e'.connections[c]? = some conn' → conn'.session ≠ r →
      ∃ conn, e.connections[c]? = some conn ∧ conn.session = conn'.session ∧ conn.enqueued = conn'.enqueued)
    (waits : l'.Unconnected → e'.pendingPackets.get? l.session.connectionId = buffered (packetsOf l'.callbacks))
    (gone : l.session.state ≠ .closed → ¬ l'.Unconnected → e'.pendingPackets.get? l.session.connectionId = none)
    (frame : ∀ k, (k = l.session.connectionId → l.session.state = .closed) → e'.pendingPackets.get? k = e.pendingPackets.get? k) :
    Delivered m' e' := by
  refine ⟨fun c conn x hc hx => ?_, fun j x hx hwaits => ?_, fun k buffer hk => ?_⟩
  · by_cases hr : conn.session = r
    · rw [hr] at hx
      obtain rfl := Option.some.inj (hg.self.symm.trans hx)
      exact own c conn hc hr
    · obtain ⟨conn₀, hconn₀, hsession, henqueued⟩ := others c conn hc hr
      rw [← henqueued]
      exact h.enqueued c conn₀ x hconn₀ (by rw [hsession, ← hg.other hr, hx])
  · by_cases hr : j = r
    · subst hr
      obtain rfl := Option.some.inj (hg.self.symm.trans hx)
      rw [hg.connectionId]
      exact waits hwaits
    · have hx₀ := (hg.other hr).symm.trans hx
      rw [frame _ fun hk => Classical.byContradiction fun hopen => hr (hm.unique j r x l hx₀ hg.before hwaits.1 hopen hk)]
      exact h.waiting j x hx₀ hwaits
  · by_cases hown : k = l.session.connectionId ∧ l.session.state ≠ .closed
    · obtain ⟨rfl, hopen⟩ := hown
      by_cases hwaits : l'.Unconnected
      · exact ⟨r, l', hg.self, hwaits, hg.connectionId⟩
      · cases (gone hopen hwaits).symm.trans hk
    · have hkept : k = l.session.connectionId → l.session.state = .closed :=
        fun heq => Classical.byContradiction fun hopen => hown ⟨heq, hopen⟩
      obtain ⟨j, x, hx, hwaits, hid⟩ := h.pending k buffer ((frame k hkept).symm.trans hk)
      have hr : j ≠ r := by
        rintro rfl
        obtain rfl := Option.some.inj (hg.before.symm.trans hx)
        exact hwaits.1 (hkept hid.symm)
      exact ⟨j, x, (hg.other hr).trans hx, hwaits, hid⟩

/-- A session without a connection has none. -/
private theorem unowned (hreg : Registry m e) (hl : m.heap[r]? = some l) (hj : ¬ l.Joined) {c : ConnRef} {conn : Connection}
    (hc : e.connections[c]? = some conn) : conn.session ≠ r := by
  intro hr
  obtain ⟨x, hx, _, hjoined, _⟩ := hreg.connection c conn hc
  rw [hr] at hx
  obtain rfl := Option.some.inj (hl.symm.trans hx)
  exact hj hjoined

/-- An event that delivers no packet and makes no connection. -/
private theorem Delivered.keeps (h : Delivered m e) (hm : m.Sound) (hreg : Registry m e) (hg : Goes m m' r l l')
    (alike : ∀ (c : ConnRef) (conn' : Connection), e'.connections[c]? = some conn' →
      ∃ conn, e.connections[c]? = some conn ∧ conn.session = conn'.session ∧ conn.enqueued = conn'.enqueued)
    (hpending : e'.pendingPackets = e.pendingPackets) (hwaits : l'.Unconnected → l.Unconnected)
    (hpackets : packetsOf l'.callbacks = packetsOf l.callbacks) (hrouted : l.Joined → l'.routed = l.routed)
    (quiet : l.Unconnected → ¬ l'.Unconnected → packetsOf l.callbacks = []) : Delivered m' e' := by
  refine h.moves hm hg (fun c conn hc hr => ?_) (fun c conn' hc _ => alike c conn' hc) (fun hw => ?_) (fun hs hw => ?_)
    (fun k _ => by rw [hpending])
  · obtain ⟨conn₀, hconn₀, hsession, henqueued⟩ := alike c conn hc
    have hown : m.heap[conn₀.session]? = some l := by rw [hsession, hr, hg.before]
    have hjoined : l.Joined := Classical.byContradiction fun hj => unowned hreg hown hj hconn₀ rfl
    rw [← henqueued, hrouted hjoined]
    exact h.enqueued c conn₀ l hconn₀ hown
  · rw [hpending, hpackets]
    exact h.waiting r l hg.before (hwaits hw)
  · rw [hpending]
    by_cases hj : l.Joined
    · exact h.unbuffered hm hg.before hs hj
    · rw [h.waiting r l hg.before ⟨hs, hj⟩, quiet ⟨hs, hj⟩ hw]
      rfl

/-- A session that had waited gets its connection, with what was buffered. -/
private theorem Delivered.registers (h : Delivered m e) (hm : m.Sound) (hreg : Registry m e) (hg : Goes m m' r l l')
    (hw : l.Unconnected) (hj' : l'.Joined)
    (connections : ∀ (c : ConnRef) (conn : Connection), e'.connections[c]? = some conn → e.connections[c]? = some conn ∨
      conn.session = r ∧ conn.enqueued = (e.pendingPackets.get? l.session.connectionId).getD [])
    (hpending : e'.pendingPackets = e.pendingPackets.pop l.session.connectionId)
    (hrouted : l'.routed = (packetsOf l.callbacks).take maxPendingPackets) : Delivered m' e' := by
  have hnone : ¬ l'.Unconnected := fun h => h.2 hj'
  refine h.moves hm hg (fun c conn hc hr => ?_) (fun c conn' hc hr => ?_) (fun h => absurd h hnone) (fun _ _ => ?_)
    (fun k hk => ?_)
  · rcases connections c conn hc with hold | ⟨_, henqueued⟩
    · exact absurd hr (unowned hreg hg.before hw.2 hold)
    · rw [henqueued, h.waiting r l hg.before hw, buffered_getD, hrouted]
  · rcases connections c conn' hc with hold | ⟨hsession, _⟩
    · exact ⟨conn', hold, rfl, rfl⟩
    · exact absurd hsession hr
  · rw [hpending, Dict.get?_pop, if_pos rfl]
  · rw [hpending, Dict.get?_pop, if_neg fun heq => hw.1 (hk heq)]

/-- Packets for a connection that stands in the map. -/
private theorem onPackets_registered {k : Nat} {c : ConnRef} (packets : List Bytes) (hc : e.conns.get? k = some c) :
    (∀ j : ConnRef, (packets.foldl (fun e data => e.onPacket k data) e).connections[j]? =
      (e.connections[j]?).map fun conn => if c = j then packets.foldl Connection.enqueue conn else conn) ∧
    (packets.foldl (fun e data => e.onPacket k data) e).pendingPackets = e.pendingPackets := by
  induction packets generalizing e with
  | nil => exact ⟨fun j => by simp, rfl⟩
  | cons data packets ih =>
    have hone : e.onPacket k data = e.update c (·.enqueue data) := by rw [onPacket, hc]
    have hkept : (e.onPacket k data).conns.get? k = some c := by
      rw [hone]
      exact hc
    obtain ⟨hconnections, hpending⟩ := ih hkept
    refine ⟨fun j => ?_, hpending.trans (by rw [hone]; rfl)⟩
    rw [List.foldl_cons, hconnections, hone, update_connections, Option.map_map]
    refine congrArg (Option.map · e.connections[j]?) (funext fun conn => ?_)
    simp only [Function.comp_def]
    split <;> rfl

/-- Packets for an id that has no connection. -/
private theorem onPackets_buffered {k : Nat} {before : List Bytes} (packets : List Bytes) (hc : e.conns.get? k = none)
    (hbefore : e.pendingPackets.get? k = buffered before) :
    (packets.foldl (fun e data => e.onPacket k data) e).connections = e.connections ∧
      ∀ j, (packets.foldl (fun e data => e.onPacket k data) e).pendingPackets.get? j =
        if j = k then buffered (before ++ packets) else e.pendingPackets.get? j := by
  induction packets generalizing e before with
  | nil =>
    refine ⟨rfl, fun j => ?_⟩
    split
    · next hj => rw [hj, List.append_nil, ← hbefore]; rfl
    · rfl
  | cons data packets ih =>
    have hone : (e.onPacket k data).conns = e.conns ∧ (e.onPacket k data).connections = e.connections ∧
        ∀ j, (e.onPacket k data).pendingPackets.get? j =
          if j = k then buffered (before ++ [data]) else e.pendingPackets.get? j := by
      rw [onPacket, hc]
      refine ⟨rfl, rfl, fun j => ?_⟩
      rw [hbefore, buffered_getD, ← buffered_concat]
      exact Dict.get?_set _ _ _ _
    obtain ⟨hconns, hconnections, hpending⟩ := hone
    have hgrown : (e.onPacket k data).pendingPackets.get? k = buffered (before ++ [data]) := by rw [hpending, if_pos rfl]
    obtain ⟨hall, hrest⟩ := ih (by rw [hconns, hc]) hgrown
    refine ⟨hall.trans hconnections, fun j => ?_⟩
    rw [List.foldl_cons, hrest, List.append_assoc, hpending]
    split <;> rfl

private theorem markConnected_enqueued (c : Connection) :
    c.markConnected.session = c.session ∧ c.markConnected.enqueued = c.enqueued := by
  unfold Connection.markConnected
  split <;> exact ⟨rfl, rfl⟩

private theorem alike_refl (c : ConnRef) (conn' : Connection) (hc : e.connections[c]? = some conn') :
    ∃ conn, e.connections[c]? = some conn ∧ conn.session = conn'.session ∧ conn.enqueued = conn'.enqueued :=
  ⟨conn', hc, rfl, rfl⟩

private theorem alike_update (c₀ : ConnRef) {f : Connection → Connection}
    (hf : ∀ conn, (f conn).session = conn.session ∧ (f conn).enqueued = conn.enqueued) (c : ConnRef) (conn' : Connection)
    (hc : (e.update c₀ f).connections[c]? = some conn') :
    ∃ conn, e.connections[c]? = some conn ∧ conn.session = conn'.session ∧ conn.enqueued = conn'.enqueued := by
  rw [update_connections] at hc
  obtain ⟨conn, hconn, rfl⟩ := Option.map_eq_some_iff.mp hc
  refine ⟨conn, hconn, ?_⟩
  split
  · exact ⟨(hf conn).1.symm, (hf conn).2.symm⟩
  · exact ⟨rfl, rfl⟩

private theorem alike_onSessionClose (k : Nat) (error : ErrorCode) (c : ConnRef) (conn' : Connection)
    (hc : (e.onSessionClose r k error).connections[c]? = some conn') :
    ∃ conn, e.connections[c]? = some conn ∧ conn.session = conn'.session ∧ conn.enqueued = conn'.enqueued := by
  unfold onSessionClose at hc
  split at hc
  · exact ⟨conn', hc, rfl, rfl⟩
  · next c₀ conn₀ hfind =>
    obtain ⟨_, hconn₀⟩ := find?_some hfind
    by_cases h : c₀ = c
    · subst h
      rw [List.getElem?_set_self (List.getElem?_eq_some_iff.mp hconn₀).1] at hc
      obtain rfl := Option.some.inj hc
      refine ⟨conn₀, hconn₀, ?_⟩
      rcases conn₀.markClosed_cases error with ⟨future, _, heq⟩ | ⟨x, _, heq⟩ <;> rw [heq] <;> exact ⟨rfl, rfl⟩
    · rw [List.getElem?_set_ne h] at hc
      exact ⟨conn', hc, rfl, rfl⟩

private theorem Sees.later (h : Sees r l l' e e') : ∃ more, l'.callbacks = l.callbacks ++ more := by
  cases h with
  | silent _ _ hc => exact ⟨[], hc.trans (List.append_nil _).symm⟩
  | connected _ _ _ _ _ hc => exact ⟨[], hc.trans (List.append_nil _).symm⟩
  | opened _ _ _ _ hc => exact ⟨_, hc⟩
  | closed error _ _ _ hc => exact ⟨_, hc⟩
  | packets packets _ _ _ hc => exact ⟨_, hc⟩

private theorem Delivered.packets (h : Delivered m e) (hm : m.Sound) (hreg : Registry m e) (hended : l.Ended)
    (hg : Goes m m' r l l') (ht : l'.Tidy)
    (packets : List Bytes) (hs : l'.session.state = l.session.state) (hj : l'.Joined ↔ l.Joined)
    (hc : l'.callbacks = l.callbacks ++ packets.map .onPacket) :
    Delivered m' (packets.foldl (fun e data => e.onPacket l.session.connectionId data) e) := by
  have hpackets : packetsOf l'.callbacks = packetsOf l.callbacks ++ packets := by
    rw [hc, packetsOf_append, packetsOf_packets]
  have hwaits : l'.Unconnected ↔ l.Unconnected := by
    rw [SessionLoop.Unconnected, SessionLoop.Unconnected, hs, hj]
  by_cases hclosed : l.session.state = .closed
  · -- a closed session delivers none
    obtain ⟨error, hmem⟩ := hended.closed hclosed
    obtain rfl := ht.silent hmem hc
    rw [List.append_nil] at hpackets
    refine h.keeps hm hreg hg alike_refl rfl hwaits.mp hpackets (fun hjoined => ?_) (fun hw hw' => absurd (hwaits.mpr hw) hw')
    rw [SessionLoop.routed_later hjoined hg.isDialer hc]
    exact List.append_nil _
  · by_cases hjoined : l.Joined
    · obtain ⟨c, conn, hconn, hsession⟩ := hreg.joined r l hg.before hjoined
      obtain ⟨x, hx, hid, _, hopen⟩ := hreg.connection c conn hconn
      rw [hsession] at hx
      obtain rfl := Option.some.inj (hg.before.symm.trans hx)
      have hmap := hopen hclosed
      rw [← hid] at hmap
      obtain ⟨hconnections, hpending⟩ := onPackets_registered packets hmap
      have hnone : ¬ l'.Unconnected := fun hw => (hwaits.mp hw).2 hjoined
      refine h.moves hm hg (fun c' conn' hc' hr => ?_) (fun c' conn' hc' hr => ?_) (fun hw => absurd hw hnone) (fun hs hw => ?_)
        (fun k _ => by rw [hpending])
      · rw [hconnections] at hc'
        obtain ⟨conn₀, hconn₀, rfl⟩ := Option.map_eq_some_iff.mp hc'
        have hsame : conn₀.session = r := by
          split at hr
          · exact (Connection.foldl_enqueue conn₀ packets).1.symm.trans hr
          · exact hr
        have hcc : c = c' := hreg.once c c' conn conn₀ hconn hconn₀ (hsession.trans hsame.symm)
        rw [if_pos hcc, (Connection.foldl_enqueue conn₀ packets).2.2, h.enqueued c' conn₀ l hconn₀ (by rw [hsame, hg.before]),
          SessionLoop.routed_later hjoined hg.isDialer hc, packetsOf_packets]
      · rw [hconnections] at hc'
        obtain ⟨conn₀, hconn₀, rfl⟩ := Option.map_eq_some_iff.mp hc'
        refine ⟨conn₀, hconn₀, ?_⟩
        split at hr
        · next hcc =>
          subst hcc
          obtain rfl := Option.some.inj (hconn.symm.trans hconn₀)
          exact absurd ((Connection.foldl_enqueue conn packets).1.trans hsession) hr
        · next hcc =>
          rw [if_neg hcc]
          exact ⟨rfl, rfl⟩
      · rw [hpending]
        exact h.unbuffered hm hg.before hs hjoined
    · have hw : l.Unconnected := ⟨hclosed, hjoined⟩
      have hfree := hreg.free hm hg.before hclosed hjoined
      obtain ⟨hconnections, hpending⟩ := onPackets_buffered packets hfree (h.waiting r l hg.before hw)
      refine h.moves hm hg (fun c conn hc' hr => ?_) (fun c conn' hc' _ => ?_) (fun _ => ?_) (fun _ hw' => absurd (hwaits.mpr hw) hw')
        (fun k hk => ?_)
      · rw [hconnections] at hc'
        exact absurd hr (unowned hreg hg.before hjoined hc')
      · rw [hconnections] at hc'
        exact ⟨conn', hc', rfl, rfl⟩
      · rw [hpending, if_pos rfl, hpackets]
      · rw [hpending, if_neg fun heq => hclosed (hk heq)]

theorem Delivered.sees (h : Delivered m e) (hm : m.Sound) (hreg : Registry m e) (ha : l.Attached) (hended : l.Ended)
    (hg : Goes m m' r l l') (ht : l'.Tidy) (hsees : Sees r l l' e e') : Delivered m' e' := by
  cases hsees with
  | silent hs hj hc =>
    have hwaits : l'.Unconnected ↔ l.Unconnected := and_congr (not_congr hs) (not_congr hj)
    have hmore : l'.callbacks = l.callbacks ++ [] := hc.trans (List.append_nil _).symm
    refine h.keeps hm hreg hg alike_refl rfl hwaits.mp (by rw [hc]) (fun hjoined => ?_) (fun hw hw' => absurd (hwaits.mpr hw) hw')
    exact (SessionLoop.routed_later hjoined hg.isDialer hmore).trans (List.append_nil _)
  | packets packets hs hj _ hc => exact h.packets hm hreg hended hg ht packets hs hj hc
  | closed error hs hs' hj hc =>
    have hpackets : packetsOf l'.callbacks = packetsOf l.callbacks := by
      rw [hc, packetsOf_append]
      exact List.append_nil _
    refine h.keeps hm hreg hg (alike_onSessionClose _ _) ?_ (fun hw => absurd hs' hw.1) hpackets (fun hjoined => ?_)
      (fun hw _ => ht.quiet ha hg.isDialer hc hw.2)
    · unfold onSessionClose
      split <;> rfl
    · exact (SessionLoop.routed_later hjoined hg.isDialer hc).trans (List.append_nil _)
  | connected hd hs hs' hj hj' hc =>
    have hnone := ha.unheard hd hj
    refine h.registers hm hreg hg ⟨hs, hj⟩ hj' (fun c conn hconn => ?_) rfl ?_
    · rw [register_connections] at hconn
      split at hconn
      · obtain rfl := Option.some.inj hconn
        obtain ⟨hsession, _, henqueued⟩ := Connection.foldl_enqueue { session := r, connectionId := l.session.connectionId }
          ((e.pendingPackets.get? l.session.connectionId).getD [])
        exact Or.inr ⟨hsession, henqueued⟩
      · exact Or.inl hconn
    · rw [SessionLoop.routed, if_pos (hg.isDialer.trans hd), hc, hnone]
      rfl
  | opened hs hs' hd hj' hc =>
    have hpackets : packetsOf l'.callbacks = packetsOf l.callbacks := by
      rw [hc, packetsOf_append]
      exact List.append_nil _
    by_cases hj : l.Joined
    · obtain ⟨c, conn, hconn, hsession⟩ := hreg.joined r l hg.before hj
      obtain ⟨x, hx, hid, _, hopen⟩ := hreg.connection c conn hconn
      rw [hsession] at hx
      obtain rfl := Option.some.inj (hg.before.symm.trans hx)
      have hmap := hopen hs
      rw [← hid] at hmap
      have hmarked : e.onSessionOpen r l.session.connectionId = e.update c Connection.markConnected := by rw [onSessionOpen, hmap]
      rw [hmarked]
      refine h.keeps hm hreg hg (alike_update c markConnected_enqueued) rfl (fun hw => absurd hj' hw.2) hpackets (fun hjoined => ?_)
        (fun hw _ => absurd hj hw.2)
      exact (SessionLoop.routed_later hjoined hg.isDialer hc).trans (List.append_nil _)
    · have hlistener : l.session.isDialer = false := Bool.eq_false_iff.mpr fun hdialer => hj (hd hdialer)
      have hfree := hreg.free hm hg.before hs hj
      simp only [onSessionOpen, hfree]
      refine h.registers hm hreg hg ⟨hs, hj⟩ hj' (fun c conn hconn => ?_) rfl
        (SessionLoop.routed_opened hj hlistener hg.isDialer hc)
      rw [update_connections] at hconn
      obtain ⟨conn₀, hmade, rfl⟩ := Option.map_eq_some_iff.mp hconn
      have hcases := e.register_connections r l.session.connectionId c
      rw [show (e.register r l.session.connectionId).1.connections[c]? = some conn₀ from hmade] at hcases
      split at hcases
      · next hnew =>
        obtain rfl := Option.some.inj hcases
        obtain ⟨hsession, _, henqueued⟩ := Connection.foldl_enqueue { session := r, connectionId := l.session.connectionId }
          ((e.pendingPackets.get? l.session.connectionId).getD [])
        have hhere : (e.register r l.session.connectionId).2 = c := hnew.symm
        rw [if_pos hhere]
        exact Or.inr ⟨(markConnected_enqueued _).1.trans hsession, (markConnected_enqueued _).2.trans henqueued⟩
      · next hold =>
        have hthere : (e.register r l.session.connectionId).2 ≠ c := fun h => hold h.symm
        rw [if_neg hthere]
        exact Or.inl hcases.symm

end Steps

theorem delivered_new (localId : NetworkId) (relayOnly : Bool) : Delivered (Manager.new localId relayOnly) {} := by
  refine ⟨fun c conn l hc => ?_, fun r l hl => ?_, fun k buffer hk => ?_⟩
  · cases hc
  · cases hl
  · cases hk

private theorem Delivered.books {m m' : Manager} {e : Endpoint} (h : Delivered m e) (heap : m'.heap = m.heap) : Delivered m' e := by
  refine ⟨?_, ?_, ?_⟩ <;> rw [heap]
  · exact h.enqueued
  · exact h.waiting
  · exact h.pending

private theorem Delivered.enrolls {m m' : Manager} {e : Endpoint} {l : SessionLoop Caller} (h : Delivered m e) (hreg : Registry m e)
    (hm' : m'.Sound) (hn : Enrolls m m' l) : Delivered m' e := by
  have hopen : l.session.state ≠ .closed := by
    rw [hn.state]
    exact SessionState.noConfusion
  refine ⟨fun c conn x hc hx => ?_, fun r x hx hw => ?_, fun k buffer hk => ?_⟩
  · obtain ⟨x₀, hx₀, _⟩ := hreg.connection c conn hc
    obtain rfl := Option.some.inj ((hn.older hx₀).symm.trans hx)
    exact h.enqueued c conn x₀ hc hx₀
  · rcases hn.either hx with ⟨rfl, rfl⟩ | hold
    · -- what is buffered belongs to an open session, which has another id
      rw [hn.callbacks]
      cases hbuffer : e.pendingPackets.get? x.session.connectionId with
      | none => rfl
      | some buffer =>
        obtain ⟨j, y, hy, hwaits, hid⟩ := h.pending _ buffer hbuffer
        have hj := hm'.unique j _ y x (hn.older hy) hx hwaits.1 hopen hid
        exact absurd hj (Nat.ne_of_lt (List.getElem?_eq_some_iff.mp hy).1)
    · exact h.waiting r x hold hw
  · obtain ⟨j, y, hy, hrest⟩ := h.pending k buffer hk
    exact ⟨j, y, hn.older hy, hrest⟩

private theorem delivered_update {m : Manager} {e : Endpoint} (h : Delivered m e) (c : ConnRef) (ev : ConnectionEvent) :
    Delivered m (e.update c (·.next ev)) := by
  refine ⟨fun j conn l hc hl => ?_, h.waiting, h.pending⟩
  obtain ⟨conn₀, hconn₀, hsession, henqueued⟩ :=
    alike_update c (fun conn => ⟨(conn.next_kept ev).session, (conn.next_kept ev).enqueued⟩) j conn hc
  rw [← henqueued]
  exact h.enqueued j conn₀ l hconn₀ (by rw [hsession, hl])

private theorem delivered_accept {m : Manager} {e : Endpoint} (h : Delivered m e) : Delivered m e.accept := by
  unfold accept
  split
  · exact h
  · exact ⟨h.enqueued, h.waiting, h.pending⟩

/-! ### What the handler gets -/

theorem sessionsOf_count (e : Endpoint) (conns : List ConnRef) {r : Ref} {c : ConnRef}
    (h : ∀ j, (e.connections[j]?).map (·.session) = some r ↔ j = c) : (e.sessionsOf conns).count r = conns.count c := by
  rw [sessionsOf, List.count_filterMap]
  refine List.countP_congr fun j _ => ?_
  rw [beq_iff_eq, beq_iff_eq]
  exact h j

theorem Registry.handedOnce {m : Manager} {e : Endpoint} (h : Registry m e) {r : Ref} {l : SessionLoop Caller} (hl : m.heap[r]? = some l) :
    (e.sessionsOf (e.handled ++ e.incoming)).count r = if l.session.isDialer = false ∧ .onOpen ∈ l.callbacks then 1 else 0 := by
  by_cases hj : l.Joined
  · obtain ⟨c, conn, hconn, rfl⟩ := h.joined r l hl hj
    have hown : ∀ j, (e.connections[j]?).map (·.session) = some conn.session ↔ j = c := by
      refine fun j => ⟨fun hsession => ?_, fun hjc => by rw [hjc, hconn]; rfl⟩
      obtain ⟨conn', hconn', heq⟩ := Option.map_eq_some_iff.mp hsession
      exact h.once j c conn' conn hconn' hconn heq
    rw [sessionsOf_count e _ hown, h.handed c conn l hconn hl]
    cases hd : l.session.isDialer with
    | true => rfl
    | false =>
      have hopen := (SessionLoop.joined_listener hd).mp hj
      rw [if_neg Bool.false_ne_true, if_pos ⟨rfl, hopen⟩]
  · rw [if_neg fun hopen => hj ((SessionLoop.joined_listener hopen.1).mpr hopen.2)]
    refine List.count_eq_zero.mpr fun hmem => ?_
    obtain ⟨c, _, hsession⟩ := List.mem_filterMap.mp hmem
    obtain ⟨conn, hconn, heq⟩ := Option.map_eq_some_iff.mp hsession
    exact unowned h hl hj hconn heq

end Endpoint

namespace Service

/-- Every session there is keeps the condition. -/
def Tidy (s : Service) : Prop := ∀ l ∈ s.manager.heap, l.Tidy

instance (s : Service) : Decidable s.Tidy := inferInstanceAs (Decidable (∀ l ∈ s.manager.heap, l.Tidy))

/-- Every connection has the packets of its own session, every incoming session that opens
is handed to the handler once, and `_pending_packets` is for sessions that may still open. -/
structure OwnPackets (s : Service) : Prop where
  handed : ∀ (r : Ref) (l : SessionLoop Caller), s.manager.heap[r]? = some l →
    (s.endpoint.sessionsOf (s.endpoint.handled ++ s.endpoint.incoming)).count r =
      if l.session.isDialer = false ∧ .onOpen ∈ l.callbacks then 1 else 0
  yielded : ∀ (c : ConnRef) (conn : Connection), s.endpoint.connections[c]? = some conn →
    ∃ l, s.manager.heap[conn.session]? = some l ∧ conn.enqueued = l.routed ∧ conn.InOrder
  pending : ∀ (k : Nat) (buffer : List Bytes), s.endpoint.pendingPackets.get? k = some buffer →
    ∃ (r : Ref) (l : SessionLoop Caller), s.manager.heap[r]? = some l ∧ l.session.connectionId = k ∧ .onOpen ∉ l.callbacks ∧
      (∀ error, .onClose error ∉ l.callbacks) ∧ buffer = (packetsOf l.callbacks).take Endpoint.maxPendingPackets

private theorem run_delivered [Aiortc] (localId : NetworkId) (relayOnly broadcasting : Bool) (events : List ServiceEvent)
    (h : Machine.Along (fun s e => s.Timely e ∧ (s.next e).Tidy) next (new localId relayOnly broadcasting) events) :
    let s := Machine.run next (new localId relayOnly broadcasting) events
    Endpoint.Routes s.manager s.endpoint ∧ Endpoint.Delivered s.manager s.endpoint := by
  have hnew : Endpoint.Routes (new localId relayOnly broadcasting).manager (new localId relayOnly broadcasting).endpoint ∧
      Endpoint.Delivered (new localId relayOnly broadcasting).manager (new localId relayOnly broadcasting).endpoint :=
    ⟨Endpoint.routes_new localId relayOnly, Endpoint.delivered_new localId relayOnly⟩
  refine @Machine.run_invariant _ _ _ next (fun s => Endpoint.Routes s.manager s.endpoint ∧ Endpoint.Delivered s.manager s.endpoint)
    (fun s e hs he => ?_) _ events hnew h
  obtain ⟨hroutes, hdelivered⟩ := hs
  let Inv : Manager → Endpoint → Prop := fun m e =>
    (∀ (r : Ref) (l : SessionLoop Caller), m.heap[r]? = some l → l.Tidy) → Endpoint.Delivered m e
  suffices hstep : Endpoint.Routes (s.next e).manager (s.next e).endpoint ∧ Inv (s.next e).manager (s.next e).endpoint from
    ⟨hstep.1, hstep.2 fun r l hl => he.2 l (List.mem_of_getElem? hl)⟩
  refine @routes_invariant _ Inv s e he.1 hroutes (fun _ => hdelivered) ?_ ?_ ?_ ?_ ?_
  · intro m m' e heap hinv ht
    exact (hinv (heap ▸ ht)).books heap
  · intro m m' e l hroutes hroutes' hn hinv ht
    exact (hinv fun r x hx => ht r x (hn.older hx)).enrolls hroutes.registry hroutes'.sound hn
  · intro m m' e e' r l l' hroutes _ hg hsees hinv ht
    have hlast := ht r l' hg.self
    obtain ⟨more, hmore⟩ := hsees.later
    refine (hinv fun j x hx => ?_).sees hroutes.sound hroutes.registry (hroutes.attached r l hg.before)
      (hroutes.ended r l hg.before) hg hlast hsees
    by_cases hj : j = r
    · subst hj
      obtain rfl := Option.some.inj (hg.before.symm.trans hx)
      exact hlast.before hg.isDialer hmore
    · exact ht j x ((hg.other hj).trans hx)
  · exact fun c ev _ => Endpoint.delivered_update hdelivered c ev
  · exact fun _ => Endpoint.delivered_accept hdelivered

/-- The accept loop takes what is there to be taken. -/
private theorem run_accept [Aiortc] (s : Service) : ∀ incoming, s.endpoint.incoming = incoming →
    (Machine.run next s (List.replicate incoming.length .accept)).endpoint.handled = s.endpoint.handled ++ incoming := by
  intro incoming
  induction incoming generalizing s with
  | nil => exact fun _ => (List.append_nil _).symm
  | cons c rest ih =>
    intro hincoming
    have haccept : s.endpoint.accept = { s.endpoint with incoming := rest, handled := s.endpoint.handled ++ [c] } := by
      rw [Endpoint.accept, hincoming]
    rw [List.length_cons, List.replicate_succ, Machine.run_cons, ih (s.next .accept) (congrArg Endpoint.incoming haccept)]
    rw [show (s.next .accept).endpoint.handled = s.endpoint.handled ++ [c] from congrArg Endpoint.handled haccept, List.append_assoc]
    rfl

/-- In every run in which sessions end once, keep the ids they have to themselves while they
are open, deliver nothing after their close and, when an incoming one closes unopened,
nothing before it: each connection has the packets of its own session in order, those from
before it opened up to 256, each incoming session that opens is handed to the handler once,
and packets are buffered only for sessions that are neither opened nor closed. -/
theorem packets_of_own_session [Aiortc] (localId : NetworkId) (relayOnly broadcasting : Bool) (events : List ServiceEvent)
    (h : Machine.Along (fun s e => s.Timely e ∧ (s.next e).Tidy) next (new localId relayOnly broadcasting) events) :
    let s := Machine.run next (new localId relayOnly broadcasting) events
    s.OwnPackets ∧ (Machine.run next s (List.replicate s.endpoint.incoming.length .accept)).endpoint.handled =
      s.endpoint.handled ++ s.endpoint.incoming := by
  intro s
  obtain ⟨hroutes, hdelivered⟩ := run_delivered localId relayOnly broadcasting events h
  refine ⟨⟨fun r l hl => hroutes.registry.handedOnce hl, fun c conn hc => ?_, fun k buffer hk => ?_⟩, run_accept s _ rfl⟩
  · obtain ⟨l, hl, _⟩ := hroutes.registry.connection c conn hc
    exact ⟨l, hl, hdelivered.enqueued c conn l hc hl, (run_in_order localId relayOnly broadcasting events [] hc).1⟩
  · obtain ⟨r, l, hl, hwaits, hid⟩ := hdelivered.pending k buffer hk
    have hbuffered := hdelivered.waiting r l hl hwaits
    rw [hid, hk] at hbuffered
    have hclosed := (hroutes.ended r l hl).opened hwaits.1
    cases hd : l.session.isDialer with
    | true =>
      -- a dialer without a connection has not delivered any
      rw [(hroutes.attached r l hl).unheard hd hwaits.2] at hbuffered
      cases hbuffered
    | false =>
      refine ⟨r, l, hl, hid, fun hopen => hwaits.2 ((SessionLoop.joined_listener hd).mpr hopen), hclosed, ?_⟩
      unfold Endpoint.buffered at hbuffered
      split at hbuffered
      · cases hbuffered
      · exact Option.some.inj hbuffered

/-- A CONNECTREQUEST comes and is answered. -/
private def answered (r : Ref) : List ServiceEvent :=
  [.manager (.deliver (.p2p 2) "CONNECTREQUEST 7 v=0".toList), .manager (.start 0), .manager (.session r (.resume 0 (.ok []))),
    .manager (.session r (.resume 0 (.ok []))), .manager (.session r (.resume 0 (.ok [])))]

private def opens (r : Ref) (label : Text) : ServiceEvent := .manager (.session r (.dataChannel label true))

private def arrives (r : Ref) (data : Bytes) : ServiceEvent := .manager (.session r (.channelMessage true data))

/-- One packet comes before the second channel is open and one after it, and the session closes. -/
theorem packets_of_own_session_closed :
    letI : Aiortc := ⟨fun _ => true⟩
    let s := Machine.run next (new (.p2p 1) false false) (answered 0 ++ [opens 0 reliableLabel, arrives 0 [0, 65],
      opens 0 unreliableLabel, arrives 0 [0, 66], .manager (.session 0 (.close (.member .none) true))])
    s.OwnPackets ∧ s.endpoint.connections.map (·.enqueued) = [[[65], [66]]] ∧ s.endpoint.incoming = [0] ∧
      (Machine.run next s [.accept]).endpoint.handled = [0] := by
  let _ : Aiortc := ⟨fun _ => true⟩
  intro s
  have halong : Machine.Along (fun s e => s.Timely e ∧ (s.next e).Tidy) next (new (.p2p 1) false false) (answered 0 ++
      [opens 0 reliableLabel, arrives 0 [0, 65], opens 0 unreliableLabel, arrives 0 [0, 66],
        .manager (.session 0 (.close (.member .none) true))]) := by
    decide +kernel
  exact ⟨(packets_of_own_session (.p2p 1) false false _ halong).1, by decide +kernel, by decide +kernel, by decide +kernel⟩

/-- A packet comes before the second channel is open, and the session closes by its timer:
the packet stays, and the peer's next session of that id yields it. -/
theorem closed_session_packet_yielded :
    letI : Aiortc := ⟨fun _ => true⟩
    let closed := Machine.run next (new (.p2p 1) false false)
      (answered 0 ++ [opens 0 reliableLabel, arrives 0 [0, 65], .manager (.session 0 (.timer 0))])
    let s := Machine.run next closed (answered 1 ++ [opens 1 reliableLabel, opens 1 unreliableLabel, .connection 0 (.recv 0)])
    closed.manager.heap.map (·.session.state) = [.closed] ∧ closed.endpoint.pendingPackets.get? 7 = some [[65]] ∧
      ¬ closed.OwnPackets ∧ s.endpoint.connections.map (fun c => (c.session, c.yielded)) = [(1, [[65]])] ∧
      s.manager.heap.map (packetsOf ·.callbacks) = [[[65]], []] ∧ ¬ s.OwnPackets := by
  let _ : Aiortc := ⟨fun _ => true⟩
  intro closed s
  have hbuffer : closed.endpoint.pendingPackets.get? 7 = some [[65]] := by decide +kernel
  have hclose : ∀ l ∈ closed.manager.heap, ∃ f ∈ l.callbacks, f = .onClose (.member .negotiationTimeoutWaitingForAccept) := by
    decide +kernel
  refine ⟨by decide +kernel, hbuffer, fun h => ?_, by decide +kernel, by decide +kernel, fun h => ?_⟩
  · obtain ⟨r, l, hl, _, _, hnone, _⟩ := h.pending 7 [[65]] hbuffer
    obtain ⟨f, hmem, rfl⟩ := hclose l (List.mem_of_getElem? hl)
    exact hnone _ hmem
  · have hown : ∀ conn ∈ s.endpoint.connections, conn.session = 1 ∧ conn.enqueued = [[65]] := by decide +kernel
    have hrouted : ∀ l ∈ s.manager.heap[1]?, l.routed = [] := by decide +kernel
    have hsome : ∃ conn, s.endpoint.connections[0]? = some conn := Option.isSome_iff_exists.mp (by decide +kernel)
    obtain ⟨conn, hc⟩ := hsome
    obtain ⟨hsession, hqueue⟩ := hown conn (List.mem_of_getElem? hc)
    obtain ⟨l, hl, henqueued, _⟩ := h.yielded 0 conn hc
    rw [hqueue, hrouted l (hsession ▸ hl)] at henqueued
    cases henqueued

end Service
end NetherNet
