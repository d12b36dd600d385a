import NetherNet.Api.Endpoint
import NetherNet.Manager.Histories

/-! How a connection is settled when its session closes: its future, its waiters and
its readers, and the codes for which the exceptions cannot be built. -/
namespace NetherNet
open Library

/-- A `ConnectionFailed` that carries `code`. -/
def Exn.FailedWith (code : Int) (e : Exn) : Prop := ∃ error text, e = .connectionFailed error text ∧ error.toInt = code

/-- A `ConnectionClosed` that carries `code`. -/
def Exn.ClosedWith (code : Int) (e : Exn) : Prop := ∃ error text, e = .connectionClosed error text ∧ error.toInt = code

/-- The error of a call of `on_close`. -/
def Effect.closeError : Effect → Option ErrorCode
  | .onClose error => some error
  | _ => none

namespace Connection

/-- A connection that `_mark_closed` was not called on. -/
structure Unsettled (c : Connection) : Prop where
  closed : c.closed = false
  holds : c.Holds []
  served : c.recvQueue.Served

/-- A connection some time after `_mark_closed(error)` was called on it, as `before`. -/
structure After (before : Connection) (error : ErrorCode) (now : Connection) : Prop where
  closedError : now.closedError = some error
  closed : now.closed = (before.markClosed error).1.closed
  connected : now.connected = (before.markClosed error).1.connected ∨ (before.markClosed error).1.connected = .pending
  enqueued : now.enqueued = before.enqueued
  queue : now.closed = true → now.Holds [.closed] ∧ now.recvQueue.Served

theorem Unsettled.next {c : Connection} (h : c.Unsettled) (e : ConnectionEvent) : (c.next e).Unsettled :=
  ⟨(c.next_kept e).closed.trans h.closed, next_holds h.holds (Or.inl rfl) e, next_served h.served e⟩

theorem Unsettled.markConnected {c : Connection} (h : c.Unsettled) : c.markConnected.Unsettled := by
  unfold Connection.markConnected
  split <;> exact ⟨h.closed, h.holds, h.served⟩

theorem Unsettled.enqueue {c : Connection} (h : c.Unsettled) (data : Bytes) : (c.enqueue data).Unsettled :=
  ⟨h.closed, enqueue_holds h.holds data, h.served.put _⟩

theorem Unsettled.enqueueAll {c : Connection} (h : c.Unsettled) (packets : List Bytes) :
    (packets.foldl Connection.enqueue c).Unsettled := by
  induction packets generalizing c with
  | nil => exact h
  | cons data packets ih => exact ih (h.enqueue data)

theorem unsettled_fresh (session : Ref) (connectionId : Nat) :
    Unsettled { session := session, connectionId := connectionId } :=
  ⟨rfl, ⟨[], rfl, rfl⟩, AsyncQueue.served_empty⟩

theorem After.next {before now : Connection} {error : ErrorCode} (h : After before error now) (e : ConnectionEvent) :
    After before error (now.next e) := by
  have hkept := now.next_kept e
  refine ⟨hkept.closedError.trans h.closedError, hkept.closed.trans h.closed, ?_, hkept.enqueued.trans h.enqueued, ?_⟩
  · rcases hkept.connected with hsame | hpending
    · rw [hsame]
      exact h.connected
    · refine Or.inr ?_
      rcases h.connected with hnow | hnow
      · exact hnow.symm.trans hpending
      · exact hnow
  · intro hclosed
    obtain ⟨hholds, hserved⟩ := h.queue (hkept.closed.symm.trans hclosed)
    exact ⟨next_holds hholds (Or.inr rfl) e, next_served hserved e⟩

theorem Unsettled.after {c : Connection} (h : c.Unsettled) (error : ErrorCode) : After c error (c.markClosed error).1 := by
  rcases c.markClosed_cases error with ⟨future, _, heq⟩ | ⟨e, _, heq⟩
  · refine ⟨?_, rfl, Or.inl rfl, ?_, ?_⟩
    · rw [heq]
    · rw [heq]
    · intro _
      rw [heq]
      obtain ⟨packets, hitems, hpackets⟩ := h.holds
      rw [List.append_nil] at hitems
      exact ⟨⟨packets, by simp [hitems], hpackets⟩, h.served.put .closed⟩
  · refine ⟨?_, rfl, Or.inl rfl, ?_, ?_⟩
    · rw [heq]
    · rw [heq]
    · intro hclosed
      rw [heq] at hclosed
      cases h.closed.symm.trans hclosed

/-! ### Settled -/

/-- What a `recv` answers once the connection is closed: the packets buffered before
that, in order, and then the exception. -/
def Answers (before now : Connection) (error : ErrorCode) (r : Received) : Prop :=
  match before.enqueued.drop now.yielded.length with
  | [] => ∃ e, r = .raised e ∧ e.ClosedWith error.toInt
  | data :: _ => r = .packet data

/-- A connection that a close with `error`, on `before`, has settled. -/
structure Settled (before : Connection) (error : ErrorCode) (now : Connection) : Prop where
  done : now.connected ≠ .pending
  failed : before.connected = .pending → ∃ e, now.connected = .failed e ∧ e.FailedWith error.toInt
  waitClosed : ∃ code, now.waitClosed = some code ∧ code.toInt = error.toInt
  send : ∀ state, state ≠ .connected → ∃ e, now.sendRaises state = some e ∧ e.ClosedWith error.toInt
  recv : ∀ getter, before.Answers now error (now.recv getter).2
  resume : ∀ index, index < now.recvQueue.woken.length → before.Answers now error (now.resume index).2
  woken : now.recvQueue.waiting ≠ [] → now.recvQueue.woken ≠ []

/-- The codes for which `raise ConnectionClosed(self._closed_error or SessionError.NONE)`
raises what it says: the members, and the int 0. -/
private theorem closedExn_closedWith {c : Connection} {error : ErrorCode} (h : c.closedError = some error) :
    c.closedExn.ClosedWith error.toInt ↔ error.IsMember ∨ error.toInt = 0 := by
  simp only [closedExn, closedOr, h]
  cases error with
  | member m =>
    refine ⟨fun _ => Or.inl ⟨m, rfl⟩, fun _ => ?_⟩
    by_cases hz : (ErrorCode.member m).toInt = 0
    · rw [if_pos hz]
      exact ⟨.none, _, rfl, hz.symm⟩
    · rw [if_neg hz]
      exact ⟨m, _, rfl, rfl⟩
  | unknown n =>
    by_cases hz : (ErrorCode.unknown n).toInt = 0
    · rw [if_pos hz]
      exact ⟨fun _ => Or.inr hz, fun _ => ⟨.none, _, rfl, hz.symm⟩⟩
    · rw [if_neg hz]
      constructor
      · rintro ⟨m, text, hraise, _⟩
        cases hraise
      · rintro (⟨m, hm⟩ | hn)
        · cases hm
        · exact absurd hn hz

private theorem failedWith_done {error : ErrorCode} {future : Future} (h : future ≠ .pending) :
    failedWith error future = .ok future := by
  cases future with
  | pending => exact absurd rfl h
  | _ => rfl

/-- A `_mark_closed` that ran to its end leaves no reader waiting: what `recv` comes to. -/
private theorem After.settled {before now : Connection} {error : ErrorCode} (h : After before error now)
    {future : Future} (hf : failedWith error before.connected = .ok future)
    (heq : before.markClosed error =
      ({ before with
          closedError := some error
          connected := future
          recvQueue := before.recvQueue.put .closed
          closed := true }, none))
    (hcode : error.IsMember ∨ error.toInt = 0) : before.Settled error now := by
  have hclosed : now.closed = true := by rw [h.closed, heq]
  have hdone : future ≠ .pending := by
    rintro rfl
    cases hc : before.connected with
    | pending =>
      rw [hc] at hf
      cases error <;> cases hf
    | connected => rw [hc] at hf; cases hf
    | cancelled => rw [hc] at hf; cases hf
    | failed e => rw [hc] at hf; cases hf
  have hconnected : now.connected = future := by
    have hnow := h.connected
    rw [heq] at hnow
    exact hnow.resolve_right hdone
  have hexn := (closedExn_closedWith h.closedError).mpr hcode
  obtain ⟨hholds, hserved⟩ := h.queue hclosed
  have answers : ∀ r, (r = match now.enqueued.drop now.yielded.length with
      | [] => .raised now.closedExn
      | data :: _ => .packet data) → before.Answers now error r := by
    intro r hr
    rw [h.enqueued] at hr
    unfold Answers
    split at hr
    · exact ⟨_, hr, hexn⟩
    · exact hr
  refine ⟨hconnected ▸ hdone, ?_, ?_, ?_, fun getter => answers _ (recv_holds hholds getter),
    fun index hi => answers _ (resume_holds hholds hi), ?_⟩
  · intro hpending
    rw [hconnected]
    rw [hpending] at hf
    cases error with
    | member m =>
      cases hf
      exact ⟨_, rfl, m, _, rfl, rfl⟩
    | unknown n => cases hf
  · refine ⟨now.closedOr, by rw [Connection.waitClosed, if_pos hclosed], ?_⟩
    simp only [closedOr, h.closedError]
    split
    · next hz => exact hz.symm
    · rfl
  · exact fun state hstate => ⟨_, if_pos hstate, hexn⟩
  · refine hserved.woken ?_
    obtain ⟨packets, hitems, _⟩ := hholds
    rw [hitems]
    simp

end Connection

namespace Endpoint

/-! ### Every connection is accounted for -/

/-- A registered connection is not settled yet. One that is not registered was found by a
close, or has made room for a newer one of its id. -/
structure Accounted (e : Endpoint) : Prop where
  registered : ∀ k c, e.conns.get? k = some c →
    ∃ conn, e.connections[c]? = some conn ∧ conn.connectionId = k ∧ conn.Unsettled
  closes : ∀ x ∈ e.closes, ∀ c before, x.found = some (c, before) →
    x.escaped = (before.markClosed x.error).2 ∧ (∀ k, e.conns.get? k ≠ some c) ∧
      ∃ now, e.connections[c]? = some now ∧ before.After x.error now
  kept : ∀ (c : ConnRef) (conn : Connection), e.connections[c]? = some conn → e.conns.get? conn.connectionId = some c ∨
    (∃ x ∈ e.closes, ∃ before, x.found = some (c, before)) ∨
      ∃ (c' : ConnRef) (conn' : Connection), c < c' ∧ e.connections[c']? = some conn' ∧ conn'.connectionId = conn.connectionId

theorem accounted_empty : Accounted {} := by
  refine ⟨?_, ?_, ?_⟩
  · intro k c hk
    cases hk
  · intro x hx
    cases hx
  · intro c conn hc
    simp at hc

theorem update_connections (e : Endpoint) (c : ConnRef) (f : Connection → Connection) (j : ConnRef) :
    (e.update c f).connections[j]? = (e.connections[j]?).map fun conn => if c = j then f conn else conn :=
  List.getElem?_modify f c e.connections j

/-- A method called on one connection keeps the account, if it keeps what the account says of it. -/
private theorem accounted_update {e : Endpoint} (h : e.Accounted) (c : ConnRef) (f : Connection → Connection)
    (hid : ∀ conn, (f conn).connectionId = conn.connectionId)
    (hunsettled : ∀ conn : Connection, conn.Unsettled → (f conn).Unsettled)
    (hafter : (∃ k, e.conns.get? k = some c) ∨
      ∀ before error now, Connection.After before error now → Connection.After before error (f now)) :
    (e.update c f).Accounted := by
  have changed : ∀ j conn, e.connections[j]? = some conn →
      ∃ conn', (e.update c f).connections[j]? = some conn' ∧ (conn' = if c = j then f conn else conn) ∧
        conn'.connectionId = conn.connectionId := by
    intro j conn hj
    refine ⟨_, by rw [update_connections, hj, Option.map_some], rfl, ?_⟩
    split
    · exact hid conn
    · rfl
  refine ⟨?_, ?_, ?_⟩
  · intro k j hk
    obtain ⟨conn, hconn, hconnId, hopen⟩ := h.registered k j hk
    obtain ⟨conn', hconn', heq, hsame⟩ := changed j conn hconn
    refine ⟨conn', hconn', hsame.trans hconnId, ?_⟩
    rw [heq]
    split
    · exact hunsettled conn hopen
    · exact hopen
  · intro x hx j before hfound
    obtain ⟨hescaped, hout, now, hnow, hrel⟩ := h.closes x hx j before hfound
    obtain ⟨now', hnow', heq, _⟩ := changed j now hnow
    refine ⟨hescaped, hout, now', hnow', ?_⟩
    rw [heq]
    split
    · next hj =>
      rcases hafter with ⟨k, hk⟩ | hafter
      · exact absurd (hj ▸ hk) (hout k)
      · exact hafter before x.error now hrel
    · exact hrel
  · intro j conn' hj
    rw [update_connections] at hj
    obtain ⟨conn, hconn, _⟩ := Option.map_eq_some_iff.mp hj
    obtain ⟨conn'', hconn'', _, hsame⟩ := changed j conn hconn
    rw [update_connections, hj] at hconn''
    obtain rfl := Option.some.inj hconn''
    rw [hsame]
    rcases h.kept j conn hconn with hin | hfound | ⟨c', conn₁, hlt, hconn₁, hid₁⟩
    · exact Or.inl hin
    · exact Or.inr (Or.inl hfound)
    · obtain ⟨conn₂, hconn₂, _, hsame₂⟩ := changed c' conn₁ hconn₁
      exact Or.inr (Or.inr ⟨c', conn₂, hlt, hconn₂, hsame₂.trans hid₁⟩)

theorem register_connections (e : Endpoint) (session : Ref) (k : Nat) (j : ConnRef) :
    (e.register session k).1.connections[j]? =
      if j = e.connections.length then
        some (((e.pendingPackets.get? k).getD []).foldl Connection.enqueue { session := session, connectionId := k })
      else e.connections[j]? := by
  simp only [register, List.getElem?_append]
  split
  · next hlt => rw [if_neg (Nat.ne_of_lt hlt)]
  · next hlt =>
    split
    · next hj => simp [hj]
    · next hj =>
      have hge : e.connections.length ≤ j := Nat.le_of_not_lt hlt
      have hout : j - e.connections.length ≠ 0 := Nat.sub_ne_zero_of_lt (Nat.lt_of_le_of_ne hge fun h => hj h.symm)
      rw [List.getElem?_eq_none hge]
      simp [hout]

private theorem accounted_register {e : Endpoint} (h : e.Accounted) (session : Ref) (k : Nat) :
    (e.register session k).1.Accounted := by
  have older : ∀ (j : ConnRef) (conn : Connection), e.connections[j]? = some conn →
      j < e.connections.length ∧ (e.register session k).1.connections[j]? = some conn := by
    intro j conn hj
    obtain ⟨hlt, _⟩ := List.getElem?_eq_some_iff.mp hj
    exact ⟨hlt, by rw [register_connections, if_neg (Nat.ne_of_lt hlt), hj]⟩
  have conns : ∀ j, (e.register session k).1.conns.get? j =
      if j = k then some e.connections.length else e.conns.get? j := fun j => Dict.get?_set _ _ _ _
  have hnew : ∃ conn, (e.register session k).1.connections[e.connections.length]? = some conn ∧
      conn.connectionId = k ∧ conn.Unsettled := by
    refine ⟨_, by rw [register_connections, if_pos rfl], ?_, (Connection.unsettled_fresh session k).enqueueAll _⟩
    exact (Connection.foldl_enqueue _ _).2.1
  refine ⟨?_, ?_, ?_⟩
  · intro j c hj
    rw [conns] at hj
    split at hj
    · next hjk =>
      obtain rfl := Option.some.inj hj
      rw [hjk]
      exact hnew
    · obtain ⟨conn, hconn, hid, hopen⟩ := h.registered j c hj
      exact ⟨conn, (older c conn hconn).2, hid, hopen⟩
  · intro x hx c before hfound
    obtain ⟨hescaped, hout, now, hnow, hrel⟩ := h.closes x hx c before hfound
    refine ⟨hescaped, ?_, now, (older c now hnow).2, hrel⟩
    intro j hj
    rw [conns] at hj
    split at hj
    · exact Nat.ne_of_gt (older c now hnow).1 (Option.some.inj hj)
    · exact hout j hj
  · intro c conn hc
    rw [register_connections] at hc
    split at hc
    · next hcn =>
      obtain ⟨conn', hconn', hid, _⟩ := hnew
      rw [register_connections, if_pos rfl, hc] at hconn'
      obtain rfl := Option.some.inj hconn'
      refine Or.inl ?_
      rw [conns, if_pos hid, hcn]
    · rcases h.kept c conn hc with hin | hfound | ⟨c', conn', hlt, hconn', hid'⟩
      · by_cases hk : conn.connectionId = k
        · obtain ⟨conn', hconn', hid, _⟩ := hnew
          exact Or.inr (Or.inr ⟨_, conn', (older c conn hc).1, hconn', hid.trans hk.symm⟩)
        · refine Or.inl ?_
          rw [conns, if_neg hk]
          exact hin
      · exact Or.inr (Or.inl hfound)
      · exact Or.inr (Or.inr ⟨c', conn', hlt, (older c' conn' hconn').2, hid'⟩)

theorem Accounted.absent {e : Endpoint} (h : e.Accounted) {k : Nat} (hnone : e.find? k = none) : e.conns.get? k = none := by
  cases hget : e.conns.get? k with
  | none => rfl
  | some c =>
    obtain ⟨conn, hconn, _⟩ := h.registered k c hget
    simp [find?, hget, hconn] at hnone

private theorem accounted_onSessionClose {e : Endpoint} (h : e.Accounted) (session : Ref) (k : Nat) (error : ErrorCode) :
    (e.onSessionClose session k error).Accounted := by
  have popped : ∀ {j c}, (e.conns.pop k).get? j = some c → j ≠ k ∧ e.conns.get? j = some c :=
    fun hj => Dict.get?_of_pop _ hj
  unfold onSessionClose
  split
  · next hnone =>
    -- nothing stands under the id, so nothing leaves the map
    have habsent := h.absent hnone
    refine ⟨fun j c hj => h.registered j c (popped hj).2, ?_, ?_⟩
    · intro x hx c before hfound
      rcases List.mem_append.mp hx with hx | hx
      · obtain ⟨hescaped, hout, hnow⟩ := h.closes x hx c before hfound
        exact ⟨hescaped, fun j hj => hout j (popped hj).2, hnow⟩
      · obtain rfl := List.mem_singleton.mp hx
        cases hfound
    · intro c conn hc
      rcases h.kept c conn hc with hin | ⟨x, hx, hfound⟩ | hnewer
      · refine Or.inl ?_
        simp only
        rw [Dict.get?_pop_ne _ fun hk => by rw [hk, habsent] at hin; cases hin]
        exact hin
      · exact Or.inr (Or.inl ⟨x, List.mem_append_left _ hx, hfound⟩)
      · exact Or.inr (Or.inr hnewer)
  · next c conn hfind =>
    obtain ⟨hreg, hconn⟩ := find?_some hfind
    obtain ⟨hlt, _⟩ := List.getElem?_eq_some_iff.mp hconn
    have hsettles : conn.connectionId = k ∧ conn.Unsettled := by
      obtain ⟨conn', hconn', hid, hopen⟩ := h.registered k c hreg
      rw [hconn] at hconn'
      obtain rfl := Option.some.inj hconn'
      exact ⟨hid, hopen⟩
    have hgone : ∀ j, (e.conns.pop k).get? j ≠ some c := by
      intro j hj
      obtain ⟨hne, hold⟩ := popped hj
      obtain ⟨conn', hconn', hid, _⟩ := h.registered j c hold
      rw [hconn] at hconn'
      obtain rfl := Option.some.inj hconn'
      exact hne (hid.symm.trans hsettles.1)
    have others : ∀ {j : ConnRef}, j ≠ c → (e.connections.set c (conn.markClosed error).1)[j]? = e.connections[j]? :=
      fun hne => List.getElem?_set_ne fun hj => hne hj.symm
    have hmarked : (e.connections.set c (conn.markClosed error).1)[c]? = some (conn.markClosed error).1 :=
      List.getElem?_set_self hlt
    have hid : (conn.markClosed error).1.connectionId = k := by
      rcases conn.markClosed_cases error with ⟨_, _, heq⟩ | ⟨_, _, heq⟩ <;> rw [heq] <;> exact hsettles.1
    refine ⟨?_, ?_, ?_⟩
    · intro j c' hj
      obtain ⟨conn', hconn', hrest⟩ := h.registered j c' (popped hj).2
      have hne : c' ≠ c := fun hc => hgone j (hc ▸ hj)
      exact ⟨conn', (others hne).trans hconn', hrest⟩
    · intro x hx c' before hfound
      rcases List.mem_append.mp hx with hx | hx
      · obtain ⟨hescaped, hout, now, hnow, hrel⟩ := h.closes x hx c' before hfound
        have hne : c' ≠ c := fun hc => hout k (hc ▸ hreg)
        exact ⟨hescaped, fun j hj => hout j (popped hj).2, now, (others hne).trans hnow, hrel⟩
      · obtain rfl := List.mem_singleton.mp hx
        cases hfound
        exact ⟨rfl, hgone, _, hmarked, hsettles.2.after error⟩
    · -- the connection that was found is in the log now, every other one stands as before
      intro c' conn' hc'
      by_cases hc : c' = c
      · exact Or.inr (Or.inl ⟨_, List.mem_append_right _ (List.mem_singleton.mpr rfl), conn, by rw [hc]⟩)
      · simp only [others hc] at hc'
        rcases h.kept c' conn' hc' with hin | ⟨x, hx, hfound⟩ | ⟨c'', conn'', hlt'', hconn'', hid''⟩
        · refine Or.inl ?_
          have hne : conn'.connectionId ≠ k := fun hk => hc (Option.some.inj ((hk ▸ hin).symm.trans hreg))
          simp only
          rw [Dict.get?_pop_ne _ hne]
          exact hin
        · exact Or.inr (Or.inl ⟨x, List.mem_append_left _ hx, hfound⟩)
        · by_cases hc'' : c'' = c
          · subst hc''
            rw [hconn] at hconn''
            obtain rfl := Option.some.inj hconn''
            exact Or.inr (Or.inr ⟨c'', _, hlt'', hmarked, hid.trans (hsettles.1.symm.trans hid'')⟩)
          · exact Or.inr (Or.inr ⟨c'', conn'', hlt'', (others hc'').trans hconn'', hid''⟩)

private theorem markConnected_connectionId (c : Connection) : c.markConnected.connectionId = c.connectionId := by
  unfold Connection.markConnected
  split <;> rfl

private theorem accounted_onSessionOpen {e : Endpoint} (h : e.Accounted) (session : Ref) (k : Nat) :
    (e.onSessionOpen session k).Accounted := by
  have marks : ∀ e : Endpoint, e.Accounted → ∀ c, e.conns.get? k = some c →
      (e.update c Connection.markConnected).Accounted := fun e he c hc =>
    accounted_update he c _ markConnected_connectionId (fun _ => Connection.Unsettled.markConnected) (Or.inl ⟨k, hc⟩)
  unfold onSessionOpen
  split
  · next c hc => exact marks e h c hc
  · have hmade := accounted_register h session k
    exact marks { (e.register session k).1 with incoming := (e.register session k).1.incoming ++ [(e.register session k).2] }
      ⟨hmade.registered, hmade.closes, hmade.kept⟩ _ (Dict.get?_set_self _ _ _)

private theorem accounted_onPacket {e : Endpoint} (h : e.Accounted) (k : Nat) (data : Bytes) :
    (e.onPacket k data).Accounted := by
  unfold onPacket
  split
  · next c hc => exact accounted_update h c _ (fun _ => rfl) (fun _ hopen => hopen.enqueue data) (Or.inl ⟨k, hc⟩)
  · exact ⟨h.registered, h.closes, h.kept⟩

theorem accounted_output {connectionId : Ref → Nat} (e : Endpoint) (o : Output) (h : e.Accounted) :
    (e.output connectionId o).Accounted := by
  cases o with
  | effect r f =>
    cases f with
    | onOpen => exact accounted_onSessionOpen h r _
    | onClose error => exact accounted_onSessionClose h r _ error
    | onPacket data => exact accounted_onPacket h _ data
    | _ => exact h
  | connected r => exact accounted_register h r _
  | raised r caller => exact h
  | aclosed => exact h

theorem accounted_connection {e : Endpoint} (h : e.Accounted) (c : ConnRef) (ev : ConnectionEvent) :
    (e.update c (·.next ev)).Accounted :=
  accounted_update h c _ (fun conn => (conn.next_kept ev).connectionId) (fun _ hopen => hopen.next ev)
    (Or.inr fun _ _ _ hafter => hafter.next ev)

theorem accounted_accept {e : Endpoint} (h : e.Accounted) : e.accept.Accounted := by
  unfold accept
  split
  · exact h
  · exact ⟨h.registered, h.closes, h.kept⟩

/-! ### The log of closes -/

/-- The errors with which `_on_session_close` was called for a session. -/
def closeErrors (e : Endpoint) (r : Ref) : List ErrorCode := (e.closes.filter (·.session = r)).map (·.error)

end Endpoint

namespace Service

/-- The endpoint's account, and the sessions whose closes it has seen. -/
private def Followed (m : Manager) (e : Endpoint) : Prop :=
  e.Accounted ∧ m.Mapped ∧ ∀ r, e.closeErrors r = (m.trace r).filterMap Effect.closeError

end Service
end NetherNet
