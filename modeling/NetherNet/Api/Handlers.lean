import NetherNet.Api.Endpoint

/-! The tasks in which a server runs the application's handler, one for each connection. -/
namespace NetherNet

/-- What the application's handler ends with. -/
inductive Ending where
  | returned | connectionClosed | raised
  deriving DecidableEq, Repr

/-- Where `_run_handler` is: not run yet, in the handler, awaiting `conn.close()`, over, with or
without an exception. A task that is cancelled before it runs is dropped, and closes nothing. -/
inductive HandlerStage where
  | created | running | dropped
  | closing (raised : Bool)
  | done (raised : Bool)
  deriving DecidableEq, Repr

/-- A task; `conn` names its connection. -/
structure HandlerTask where
  conn : Nat
  stage : HandlerStage := .created
  cancelled : Bool := false
  deriving DecidableEq, Repr

namespace HandlerTask

/-- `task.cancel()`. A coroutine that has begun may take the exception as it likes. -/
def cancel (t : HandlerTask) : HandlerTask := { t with cancelled := true }

/-- The first step of the task. -/
def run (t : HandlerTask) : HandlerTask :=
  match t.stage with
  | .created => { t with stage := if t.cancelled then .dropped else .running }
  | _ => t

/-- The handler has ended, and `finally` awaits `conn.close()`. -/
def ended (t : HandlerTask) (ending : Ending) : HandlerTask :=
  match t.stage with
  | .running => { t with stage := .closing (ending = .raised) }
  | _ => t

/-- `conn.close()` has ended. -/
def torn (t : HandlerTask) (raised : Bool) : HandlerTask :=
  match t.stage with
  | .closing already => { t with stage := .done (already || raised) }
  | _ => t

/-- The handler has ended. -/
def HasEnded (t : HandlerTask) : Prop := ∃ raised, t.stage = .closing raised ∨ t.stage = .done raised

end HandlerTask

/-! ### What becomes of the tasks -/

/-- The stages in their order. -/
def HandlerStage.rank : HandlerStage → Nat
  | .created => 0
  | .running => 1
  | .closing _ => 2
  | .done _ => 3
  | .dropped => 4

namespace HandlerTask

/-- A task goes forward only, and never runs once it was cancelled before. -/
structure Onward (t t' : HandlerTask) : Prop where
  conn : t'.conn = t.conn
  cancelled : t.cancelled = true → t'.cancelled = true
  rank : t.stage.rank ≤ t'.stage.rank
  held : t.cancelled = true → t.stage = .created → t'.stage = .created ∨ t'.stage = .dropped

theorem Onward.refl (t : HandlerTask) : t.Onward t := ⟨rfl, id, Nat.le_refl _, fun _ => Or.inl⟩

theorem Onward.trans {t t' t'' : HandlerTask} (h : t.Onward t') (h' : t'.Onward t'') : t.Onward t'' := by
  refine ⟨h'.conn.trans h.conn, fun hc => h'.cancelled (h.cancelled hc), Nat.le_trans h.rank h'.rank, fun hc hs => ?_⟩
  rcases h.held hc hs with hcreated | hdropped
  · exact h'.held (h.cancelled hc) hcreated
  · -- nothing comes after that
    have hrank := h'.rank
    rw [hdropped] at hrank
    cases hs' : t''.stage with
    | dropped => exact Or.inr rfl
    | _ =>
      rw [hs'] at hrank
      exact absurd hrank (by simp [HandlerStage.rank])

theorem onward_cancel (t : HandlerTask) : t.Onward t.cancel := ⟨rfl, fun _ => rfl, Nat.le_refl _, fun _ => Or.inl⟩

theorem onward_run (t : HandlerTask) : t.Onward t.run := by
  unfold run
  split
  · next hs =>
    refine ⟨rfl, id, ?_, fun hc _ => Or.inr (if_pos hc)⟩
    rw [hs]
    exact Nat.zero_le _
  · exact Onward.refl t

theorem onward_ended (t : HandlerTask) (ending : Ending) : t.Onward (t.ended ending) := by
  unfold ended
  split
  · next hs =>
    refine ⟨rfl, id, ?_, fun _ hc => ?_⟩
    · rw [hs]
      exact Nat.le_succ 1
    · rw [hs] at hc
      cases hc
  · exact Onward.refl t

theorem onward_torn (t : HandlerTask) (raised : Bool) : t.Onward (t.torn raised) := by
  unfold torn
  split
  · next already hs =>
    refine ⟨rfl, id, ?_, fun _ hc => ?_⟩
    · rw [hs]
      exact Nat.le_succ 2
    · rw [hs] at hc
      cases hc
  · exact Onward.refl t

/-- The tasks have gone forward, and there may be new ones. -/
def Follow (ts ts' : List HandlerTask) : Prop :=
  ∀ (i : Nat) (t : HandlerTask), ts[i]? = some t → ∃ t', ts'[i]? = some t' ∧ t.Onward t'

theorem Follow.refl (ts : List HandlerTask) : Follow ts ts := fun _ t ht => ⟨t, ht, Onward.refl t⟩

theorem Follow.trans {ts ts' ts'' : List HandlerTask} (h : Follow ts ts') (h' : Follow ts' ts'') : Follow ts ts'' := by
  intro i t ht
  obtain ⟨t', ht', honward⟩ := h i t ht
  obtain ⟨t'', ht'', honward'⟩ := h' i t' ht'
  exact ⟨t'', ht'', honward.trans honward'⟩

theorem follow_modify (ts : List HandlerTask) (i : Nat) {f : HandlerTask → HandlerTask} (h : ∀ t : HandlerTask, t.Onward (f t)) :
    Follow ts (ts.modify i f) := by
  intro j t ht
  rw [List.getElem?_modify, ht]
  refine ⟨_, rfl, ?_⟩
  split
  · exact h t
  · exact Onward.refl t

theorem follow_map (ts : List HandlerTask) {f : HandlerTask → HandlerTask} (h : ∀ t : HandlerTask, t.Onward (f t)) : Follow ts (ts.map f) := by
  intro i t ht
  exact ⟨f t, by rw [List.getElem?_map, ht]; rfl, h t⟩

theorem follow_append (ts new : List HandlerTask) : Follow ts (ts ++ new) := by
  intro i t ht
  refine ⟨t, ?_, Onward.refl t⟩
  rw [List.getElem?_append_left (List.getElem?_eq_some_iff.mp ht).1, ht]

/-- No task is created any more, and those that have not run are cancelled. -/
def Held (ts ts' : List HandlerTask) : Prop :=
  ts'.length = ts.length ∧ ∀ (i : Nat) (t' : HandlerTask), ts'[i]? = some t' → t'.stage = .running → ∃ t, ts[i]? = some t ∧ t.stage = .running

/-- Where no task is created and all have been cancelled, none begins to run. -/
theorem Follow.held {ts ts' : List HandlerTask} (h : Follow ts ts') (hlength : ts'.length = ts.length)
    (hcancelled : ∀ t ∈ ts, t.cancelled = true) : Held ts ts' := by
  refine ⟨hlength, fun i t' ht' hrunning => ?_⟩
  have hlt : i < ts.length := hlength ▸ (List.getElem?_eq_some_iff.mp ht').1
  obtain ⟨t₀, ht₀, honward⟩ := h i ts[i] (List.getElem?_eq_getElem hlt)
  obtain rfl := Option.some.inj (ht₀.symm.trans ht')
  refine ⟨ts[i], List.getElem?_eq_getElem hlt, ?_⟩
  have hrank := honward.rank
  rw [hrunning] at hrank
  cases hs : ts[i].stage with
  | created =>
    rcases honward.held (hcancelled _ (List.getElem_mem hlt)) hs with hc | hd
    · rw [hrunning] at hc
      cases hc
    · rw [hrunning] at hd
      cases hd
  | running => rfl
  | _ =>
    rw [hs] at hrank
    exact absurd hrank (by simp [HandlerStage.rank])

/-! ### What a server keeps of its tasks -/

/-- There is a task for each connection, in order; the session of one whose handler has ended
is closed; and the tasks are cancelled when the server is closed, and not before. -/
structure Tended (ts : List HandlerTask) (conns : List Nat) (closed : Bool) (Ended : Nat → Prop) : Prop where
  conns : ts.map conn = conns
  ended : ∀ t ∈ ts, t.HasEnded → Ended t.conn
  cancelled : ∀ t ∈ ts, t.cancelled = true ∨ t.stage = .dropped → closed = true
  reaped : closed = true → ∀ t ∈ ts, t.cancelled = true

section Tended
variable {ts : List HandlerTask} {conns : List Nat} {closed : Bool} {Ended : Nat → Prop}

theorem tended_nil : Tended [] [] false Ended := by
  refine ⟨rfl, fun t ht => ?_, fun t ht => ?_, fun hc => ?_⟩
  · cases ht
  · cases ht
  · cases hc

theorem Tended.mem (h : Tended ts conns closed Ended) {t : HandlerTask} (ht : t ∈ ts) : t.conn ∈ conns :=
  h.conns ▸ List.mem_map_of_mem ht

/-- The sessions that are closed stay closed. -/
theorem Tended.mono {Ended' : Nat → Prop} (h : Tended ts conns closed Ended) (hmono : ∀ c ∈ conns, Ended c → Ended' c) :
    Tended ts conns closed Ended' :=
  ⟨h.conns, fun t ht hends => hmono t.conn (h.mem ht) (h.ended t ht hends), h.cancelled, h.reaped⟩

/-- Tasks for new connections. -/
theorem Tended.append (h : Tended ts conns false Ended) (new : List Nat) :
    Tended (ts ++ new.map fun c => { conn := c }) (conns ++ new) false Ended := by
  refine ⟨?_, fun t ht hends => ?_, fun t ht hc => ?_, fun hc => (by cases hc)⟩
  · rw [List.map_append, h.conns, List.map_map]
    exact congrArg (conns ++ ·) (List.map_id new)
  · rcases List.mem_append.mp ht with hold | hnew
    · exact h.ended t hold hends
    · obtain ⟨c, _, rfl⟩ := List.mem_map.mp hnew
      obtain ⟨raised, hs | hs⟩ := hends
      · cases hs
      · cases hs
  · rcases List.mem_append.mp ht with hold | hnew
    · exact h.cancelled t hold hc
    · obtain ⟨c, _, rfl⟩ := List.mem_map.mp hnew
      rcases hc with hc | hc
      · cases hc
      · cases hc

/-- The server is closed. -/
theorem Tended.cancel (h : Tended ts conns closed Ended) : Tended (ts.map HandlerTask.cancel) conns true Ended := by
  refine ⟨?_, fun t' ht' hends => ?_, fun _ _ _ => rfl, fun _ t' ht' => ?_⟩
  · rw [List.map_map]
    exact h.conns
  · obtain ⟨t, ht, rfl⟩ := List.mem_map.mp ht'
    exact h.ended t ht hends
  · obtain ⟨t, _, rfl⟩ := List.mem_map.mp ht'
    rfl

theorem mem_modify {i : Nat} {f : HandlerTask → HandlerTask} {t' : HandlerTask} (h : t' ∈ ts.modify i f) :
    t' ∈ ts ∨ ∃ t, ts[i]? = some t ∧ t' = f t := by
  obtain ⟨j, hj⟩ := List.mem_iff_getElem?.mp h
  rw [List.getElem?_modify] at hj
  obtain ⟨t, ht, heq⟩ := Option.map_eq_some_iff.mp hj
  split at heq
  · next hij => exact Or.inr ⟨t, hij ▸ ht, heq.symm⟩
  · exact Or.inl (heq ▸ List.mem_of_getElem? ht)

theorem map_conn_modify (ts : List HandlerTask) (i : Nat) {f : HandlerTask → HandlerTask} (hf : ∀ t : HandlerTask, (f t).conn = t.conn) :
    (ts.modify i f).map conn = ts.map conn := by
  apply List.ext_getElem?
  intro j
  rw [List.getElem?_map, List.getElem?_map, List.getElem?_modify]
  cases ts[j]? with
  | none => rfl
  | some t =>
    simp only [Option.map_eq_map, Option.map_some]
    split
    · rw [hf t]
    · rfl

/-- One task goes on. -/
private theorem Tended.modify (h : Tended ts conns closed Ended) (i : Nat) {f : HandlerTask → HandlerTask}
    (hf : ∀ t : HandlerTask, (f t).conn = t.conn ∧ (f t).cancelled = t.cancelled)
    (hdropped : ∀ t : HandlerTask, (f t).stage = .dropped → t.stage = .dropped ∨ t.cancelled = true)
    (hended : ∀ t, ts[i]? = some t → (f t).HasEnded → t.HasEnded ∨ Ended t.conn) : Tended (ts.modify i f) conns closed Ended := by
  refine ⟨(map_conn_modify ts i fun t => (hf t).1).trans h.conns, fun t' ht' hends => ?_, fun t' ht' hc => ?_, fun hclosed t' ht' => ?_⟩
  · rcases mem_modify ht' with hold | ⟨t, ht, rfl⟩
    · exact h.ended t' hold hends
    · rw [(hf t).1]
      exact (hended t ht hends).elim (h.ended t (List.mem_of_getElem? ht)) id
  · rcases mem_modify ht' with hold | ⟨t, ht, rfl⟩
    · exact h.cancelled t' hold hc
    · refine h.cancelled t (List.mem_of_getElem? ht) ?_
      rcases hc with hc | hc
      · exact Or.inl ((hf t).2.symm.trans hc)
      · exact (hdropped t hc).symm
  · rcases mem_modify ht' with hold | ⟨t, ht, rfl⟩
    · exact h.reaped hclosed t' hold
    · exact (hf t).2.trans (h.reaped hclosed t (List.mem_of_getElem? ht))

theorem Tended.run (h : Tended ts conns closed Ended) (i : Nat) : Tended (ts.modify i HandlerTask.run) conns closed Ended := by
  refine h.modify i (fun t => ?_) (fun t hd => ?_) fun t _ hends => Or.inl ?_
  · unfold HandlerTask.run
    split <;> exact ⟨rfl, rfl⟩
  · unfold HandlerTask.run at hd
    split at hd
    · cases hc : t.cancelled with
      | true => exact Or.inr rfl
      | false => simp [hc] at hd
    · exact Or.inl hd
  · unfold HandlerTask.run at hends
    split at hends
    · obtain ⟨raised, hs⟩ := hends
      cases hc : t.cancelled <;> simp [hc] at hs
    · exact hends

theorem Tended.torn (h : Tended ts conns closed Ended) (i : Nat) (raised : Bool) :
    Tended (ts.modify i (·.torn raised)) conns closed Ended := by
  refine h.modify i (fun t => ?_) (fun t hd => ?_) fun t _ hends => Or.inl ?_
  · unfold HandlerTask.torn
    split <;> exact ⟨rfl, rfl⟩
  · unfold HandlerTask.torn at hd
    split at hd
    · cases hd
    · exact Or.inl hd
  · unfold HandlerTask.torn at hends
    split at hends
    · next already hs => exact ⟨already, Or.inl hs⟩
    · exact hends

/-- The handler of a task has ended, and the session of its connection is closed. -/
theorem Tended.finish (h : Tended ts conns closed Ended) {i : Nat} {t : HandlerTask} (ht : ts[i]? = some t) (hended : Ended t.conn)
    (ending : Ending) : Tended (ts.modify i (·.ended ending)) conns closed Ended := by
  refine h.modify i (fun t => ?_) (fun t hd => ?_) fun t' ht' _ => Or.inr ?_
  · unfold HandlerTask.ended
    split <;> exact ⟨rfl, rfl⟩
  · unfold HandlerTask.ended at hd
    split at hd
    · cases hd
    · exact Or.inl hd
  · obtain rfl := Option.some.inj (ht.symm.trans ht')
    exact hended

end Tended
end HandlerTask
end NetherNet
