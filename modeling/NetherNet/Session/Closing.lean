import NetherNet.Session.Moves

/-! The life of one session over whole runs: what a closed session still does, and
how often the application's callbacks are made. -/
namespace NetherNet.SessionLoop
open Library
variable {κ : Type}

/-- The event loop holds at most the timer whose handle the session keeps. -/
def OneTimer (s : Session) : Prop :=
  match s.timeoutHandle with
  | none => s.scheduled = []
  | some handle => s.scheduled = [] ∨ ∃ error, s.scheduled = [(handle, error)]

/-- The trace of a session that has closed: one `on_close`, and nothing but quiet effects after it. -/
def ClosedOnce (trace : List Effect) : Prop :=
  ∃ before error after, trace = before ++ .onClose error :: after ∧
    (∀ f ∈ before, f.isClose = false) ∧ ∀ f ∈ after, f.quiet = true

/-- What holds of a session in every state of its life. -/
structure Lifecycle (l : SessionLoop κ) : Prop where
  timers : OneTimer l.session
  disarmed : l.session.state = .closed → l.session.scheduled = []
  opened : l.trace.count .onOpen ≤ if l.session.pc.channelsOpenFired then 1 else 0
  unclosed : l.session.state ≠ .closed → ∀ f ∈ l.trace, f.isClose = false
  closedOnce : l.session.state = .closed → ClosedOnce l.trace

theorem cancelTimeout_scheduled (s : Session) (h : OneTimer s) : s.cancelTimeout.scheduled = [] := by
  unfold Session.cancelTimeout
  unfold OneTimer at h
  cases hh : s.timeoutHandle with
  | none => simpa [hh] using h
  | some handle =>
    rw [hh] at h
    rcases h with h | ⟨error, h⟩ <;> simp [h]

theorem oneTimer_sublist (s : Session) (scheduled : List (Nat × ErrorCode)) (h : OneTimer s)
    (hl : scheduled.Sublist s.scheduled) : OneTimer { s with scheduled := scheduled } := by
  unfold OneTimer at h ⊢
  cases hh : s.timeoutHandle with
  | none =>
    rw [hh] at h
    simp only [h, List.sublist_nil] at hl
    exact hl
  | some handle =>
    rw [hh] at h
    rcases h with h | ⟨error, h⟩
    · rw [h, List.sublist_nil] at hl
      exact Or.inl hl
    · rw [h] at hl
      rcases List.sublist_singleton.mp hl with hl | hl
      · exact Or.inl hl
      · exact Or.inr ⟨error, hl⟩

private theorem oneTimer_none (s : Session) (hn : s.timeoutHandle = none) (hs : s.scheduled = []) : OneTimer s := by
  unfold OneTimer
  rw [hn]
  exact hs

private theorem armTimeout_oneTimer (s : Session) (error : SessionError) (h : OneTimer s) :
    OneTimer (s.armTimeout error) := by
  have hc := cancelTimeout_scheduled s h
  simp only [Session.armTimeout, OneTimer, hc, List.nil_append]
  exact Or.inr ⟨.member error, rfl⟩

private theorem not_close_of_quiet {f : Effect} (h : f.quiet = true) : f.isClose = false := by
  cases f <;> simp_all [Effect.quiet, Effect.isClose]

private theorem count_open_eq_zero {effects : List Effect} (h : ∀ f ∈ effects, f ≠ .onOpen) :
    effects.count .onOpen = 0 := List.count_eq_zero.mpr fun hm => h _ hm rfl

/-- Every move that is not late preserves the life of the session. -/
private theorem lifecycle_move (l l' : SessionLoop κ) (effects : List Effect) (hl : Lifecycle l)
    (hm : Session.Move False l.session l'.session effects) (ht : l'.trace = l.trace ++ effects) : Lifecycle l' := by
  obtain ⟨s, tasks, trace⟩ := l
  obtain ⟨s', tasks', trace'⟩ := l'
  obtain ⟨htimers, hdisarmed, hopened, hunclosed, hclosed⟩ := hl
  simp only at hm ht htimers hdisarmed hopened hunclosed hclosed
  subst ht
  cases hm with
  | quiet pc scheduled effects hq hf hsched =>
    have hopen : effects.count .onOpen = 0 := count_open_eq_zero fun f hmem hfo => by
      have := hq f hmem
      rw [hfo] at this
      cases this
    have hsub : scheduled.Sublist s.scheduled := by
      rcases hsched with rfl | ⟨_, h⟩
      · exact List.Sublist.refl _
      · exact h
    refine ⟨oneTimer_sublist s scheduled htimers hsub, ?_, ?_, ?_, ?_⟩
    · intro hs
      have := hdisarmed hs
      rw [this, List.sublist_nil] at hsub
      exact hsub
    · rw [List.count_append, hopen, Nat.add_zero]
      refine Nat.le_trans hopened ?_
      cases hfired : s.pc.channelsOpenFired with
      | true => simp [hf hfired]
      | false => exact Nat.zero_le _
    · intro hs f hmem
      rcases List.mem_append.mp hmem with hmem | hmem
      · exact hunclosed hs f hmem
      · exact not_close_of_quiet (hq f hmem)
    · intro hs
      obtain ⟨before, error, after, htrace, hb, ha⟩ := hclosed hs
      refine ⟨before, error, after ++ effects, by simp [htrace], hb, ?_⟩
      intro f hmem
      rcases List.mem_append.mp hmem with hmem | hmem
      · exact ha f hmem
      · exact hq f hmem
  | opens pc hs hc hn hf =>
    have hst := cancelTimeout_scheduled { s with pc := pc, state := .connected } htimers
    refine ⟨oneTimer_none _ (Session.cancelTimeout_timeoutHandle _) hst, by simp, ?_, ?_, by simp⟩
    · rw [hn] at hopened
      simp only [Bool.false_eq_true, if_false, Nat.le_zero_eq] at hopened
      simp [hopened, hf]
    · intro _ f hmem
      rcases List.mem_append.mp hmem with hmem | hmem
      · exact hunclosed hc f hmem
      · obtain rfl := List.mem_singleton.mp hmem
        rfl
  | arms pc state error effects hw hi hlate hf =>
    have hs : s.state ≠ .closed := fun h => hlate h
    have hnot : state ≠ .closed := by cases hw <;> simp
    refine ⟨armTimeout_oneTimer _ error htimers, by simp [hnot], ?_, ?_, by simp [hnot]⟩
    · have hopen : effects.count .onOpen = 0 := count_open_eq_zero fun f hmem => (hi f hmem).1
      simpa [hopen, hf] using hopened
    · intro _ f hmem
      rcases List.mem_append.mp hmem with hmem | hmem
      · exact hunclosed hs f hmem
      · exact (hi f hmem).2
  | closes scheduled error notice hs hsched hn =>
    have hsub := oneTimer_sublist s scheduled htimers hsched
    have hst := cancelTimeout_scheduled { s with scheduled := scheduled, state := .closed } hsub
    refine ⟨oneTimer_none _ (Session.cancelTimeout_timeoutHandle _) hst, fun _ => hst, ?_, by simp, ?_⟩
    · have hopen : (notice ++ [Effect.onClose error]).count .onOpen = 0 := by
        apply count_open_eq_zero
        intro f hmem
        rcases List.mem_append.mp hmem with hmem | hmem
        · exact (hn f hmem).1
        · obtain rfl := List.mem_singleton.mp hmem
          simp
      rw [List.count_append, hopen]
      simpa using hopened
    · intro _
      refine ⟨trace ++ notice, error, [], by simp, ?_, by simp⟩
      intro f hmem
      rcases List.mem_append.mp hmem with hmem | hmem
      · exact hunclosed hs f hmem
      · exact (hn f hmem).2

/-- The condition on one event: no `create_offer` or `create_answer` returns to a closed session. -/
def Timely (l : SessionLoop κ) (e : SessionEvent κ) : Prop := ¬ l.Late e

theorem lifecycle_step [Aiortc] (l : SessionLoop κ) (e : SessionEvent κ) (hl : Lifecycle l) (h : Timely l e) :
    Lifecycle (l.next e) := by
  have hm := l.step_move e
  have hlate : l.Late e = False := eq_false h
  rw [hlate] at hm
  exact lifecycle_move l (l.next e) _ hl hm (l.step_trace e)

theorem lifecycle_fresh (s : Session) (hs : s.state = .idle) (ht : s.timeoutHandle = none) (hd : s.scheduled = []) :
    Lifecycle (fresh s : SessionLoop κ) := by
  refine ⟨oneTimer_none s ht hd, by simp [fresh, hs], by simp [fresh], by simp [fresh], by simp [fresh, hs]⟩

theorem lifecycle_run [Aiortc] {l : SessionLoop κ} {events : List (SessionEvent κ)} (hl : Lifecycle l)
    (h : Machine.Along Timely next l events) : Lifecycle (Machine.run next l events) :=
  Machine.run_invariant lifecycle_step hl h

/-- A closed session stays closed, whatever happens to it in time. -/
theorem closed_step [Aiortc] (l : SessionLoop κ) (e : SessionEvent κ) (hs : l.session.state = .closed)
    (h : Timely l e) : (l.next e).session.state = .closed ∧ ∀ f ∈ (l.step e).effects, f.quiet = true := by
  have hm := l.step_move e
  have hlate : l.Late e = False := eq_false h
  rw [hlate] at hm
  generalize hl' : (l.step e).loop.session = s' at hm
  generalize (l.step e).effects = effects at hm
  simp only [next, hl']
  cases hm with
  | quiet pc scheduled _ hq _ _ => exact ⟨hs, hq⟩
  | opens pc _ hc _ _ => exact absurd hs hc
  | arms pc state error _ _ _ hlate _ => exact (hlate hs).elim
  | closes _ _ _ hc _ _ => exact absurd hs hc

/-- The session is closed, and since `l` its trace has grown by quiet effects only. -/
def ClosedSince (l l' : SessionLoop κ) : Prop :=
  l'.session.state = .closed ∧ ∃ rest, l'.trace = l.trace ++ rest ∧ ∀ f ∈ rest, f.quiet = true

private theorem closedSince_step [Aiortc] (l l' : SessionLoop κ) (e : SessionEvent κ) (h : ClosedSince l l')
    (ht : Timely l' e) : ClosedSince l (l'.next e) := by
  obtain ⟨hs', rest, htrace, hrest⟩ := h
  obtain ⟨hclosed, hquiet⟩ := closed_step l' e hs' ht
  refine ⟨hclosed, rest ++ (l'.step e).effects, ?_, ?_⟩
  · rw [next, step_trace, htrace, List.append_assoc]
  · intro f hf
    rcases List.mem_append.mp hf with hf | hf
    · exact hrest f hf
    · exact hquiet f hf

/-- What a run adds to the trace of a closed session is quiet. -/
theorem closed_run [Aiortc] {l : SessionLoop κ} {events : List (SessionEvent κ)} (hs : l.session.state = .closed)
    (h : Machine.Along Timely next l events) : ClosedSince l (Machine.run next l events) :=
  Machine.run_invariant (closedSince_step l) ⟨hs, [], by simp, by simp⟩ h

/-- `on_close` is called once by a session that is closed, and never by one that is not. -/
theorem Lifecycle.closes {l : SessionLoop κ} (hl : Lifecycle l) :
    l.trace.countP Effect.isClose = if l.session.state = .closed then 1 else 0 := by
  split
  · next hs =>
    obtain ⟨before, error, after, htrace, hb, ha⟩ := hl.closedOnce hs
    have hbefore : before.countP Effect.isClose = 0 := List.countP_eq_zero.mpr fun f hf => by simp [hb f hf]
    have hafter : after.countP Effect.isClose = 0 :=
      List.countP_eq_zero.mpr fun f hf => by simp [not_close_of_quiet (ha f hf)]
    rw [htrace, List.countP_append, List.countP_cons_of_pos rfl, hbefore, hafter]
  · next hs => exact List.countP_eq_zero.mpr fun f hf => by simp [hl.unclosed hs f hf]

/-- `on_open` never comes after `on_close`. -/
theorem Lifecycle.opens_first {l : SessionLoop κ} (hl : Lifecycle l) {before after : List Effect} {error : ErrorCode}
    (h : l.trace = before ++ .onClose error :: after) : .onOpen ∉ after := by
  have hs : l.session.state = .closed := by
    apply Classical.byContradiction
    intro hs
    have hno := hl.unclosed hs (.onClose error) (by simp [h])
    cases hno
  obtain ⟨before', error', after', htrace, hb, ha⟩ := hl.closedOnce hs
  rw [h] at htrace
  have hmem : ∀ f ∈ after, f ∈ after' := by
    rcases List.append_eq_append_iff.mp htrace with ⟨as, hbefore', hrest⟩ | ⟨bs, _, hrest⟩
    · cases as with
      | nil =>
        obtain ⟨_, hafter⟩ := List.cons.inj hrest
        exact fun f hf => hafter ▸ hf
      | cons f as =>
        obtain ⟨hf, _⟩ := List.cons.inj hrest
        have hno := hb f (by simp [hbefore'])
        rw [← hf] at hno
        cases hno
    · cases bs with
      | nil =>
        obtain ⟨_, hafter⟩ := List.cons.inj hrest
        exact fun f hf => hafter.symm ▸ hf
      | cons f bs =>
        obtain ⟨_, hafter⟩ := List.cons.inj hrest
        have hno := ha (.onClose error) (by simp [hafter])
        cases hno
  intro hopen
  have hno := ha .onOpen (hmem _ hopen)
  cases hno

end NetherNet.SessionLoop
