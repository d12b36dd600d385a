import Mathlib.Data.List.Basic

/-! Runs of a deterministic machine: what one event does, what a run does, and
what holds in every state of a run whose steps all satisfy a side condition. -/
namespace NetherNet.Library.Machine
variable {σ ε τ δ : Type}

/-- The state after the events of a list, in order. -/
def run (step : σ → ε → σ) (s : σ) (events : List ε) : σ := events.foldl step s

/-- Every step of the run starts in a state and on an event that `ok` accepts. -/
def Along (ok : σ → ε → Prop) (step : σ → ε → σ) : σ → List ε → Prop
  | _, [] => True
  | s, e :: rest => ok s e ∧ Along ok step (step s e) rest

instance decidableAlong {ok : σ → ε → Prop} [∀ s e, Decidable (ok s e)] (step : σ → ε → σ) :
    ∀ s events, Decidable (Along ok step s events)
  | _, [] => .isTrue trivial
  | s, e :: rest => @instDecidableAnd _ _ _ (decidableAlong step (step s e) rest)

@[simp] theorem run_nil (step : σ → ε → σ) (s : σ) : run step s [] = s := rfl
@[simp] theorem run_cons (step : σ → ε → σ) (s : σ) (e : ε) (rest : List ε) :
    run step s (e :: rest) = run step (step s e) rest := rfl
theorem run_append (step : σ → ε → σ) (s : σ) (first rest : List ε) :
    run step s (first ++ rest) = run step (run step s first) rest := by
  simp [run]
theorem run_concat (step : σ → ε → σ) (s : σ) (first : List ε) (e : ε) :
    run step s (first ++ [e]) = step (run step s first) e := by
  simp [run]

theorem along_append (ok : σ → ε → Prop) (step : σ → ε → σ) (s : σ) (first rest : List ε) :
    Along ok step s (first ++ rest) ↔ Along ok step s first ∧ Along ok step (run step s first) rest := by
  induction first generalizing s with
  | nil => simp [Along]
  | cons e first ih => simp [Along, ih, and_assoc]

theorem along_of_forall {p : ε → Prop} (step : σ → ε → σ) (s : σ) {events : List ε} (h : ∀ e ∈ events, p e) :
    Along (fun _ e => p e) step s events := by
  induction events generalizing s with
  | nil => trivial
  | cons e rest ih => exact ⟨h e (List.mem_cons_self ..), ih (step s e) fun e he => h e (List.mem_cons_of_mem _ he)⟩

theorem Along.mono {ok ok' : σ → ε → Prop} {step : σ → ε → σ} (weaker : ∀ s e, ok s e → ok' s e) {s : σ} {events : List ε}
    (h : Along ok step s events) : Along ok' step s events := by
  induction events generalizing s with
  | nil => trivial
  | cons e rest ih => exact ⟨weaker s e h.1, ih h.2⟩

theorem Along.and {ok ok' : σ → ε → Prop} {step : σ → ε → σ} {s : σ} {events : List ε} (h : Along ok step s events)
    (h' : Along ok' step s events) : Along (fun s e => ok s e ∧ ok' s e) step s events := by
  induction events generalizing s with
  | nil => trivial
  | cons e rest ih => exact ⟨⟨h.1, h'.1⟩, ih h.2 h'.2⟩

/-- The invariant rule: a property that the accepted steps preserve holds at the
end of every run of accepted steps. Applied to the prefixes, in every state of it. -/
theorem run_invariant {ok : σ → ε → Prop} {step : σ → ε → σ} {Inv : σ → Prop}
    (preserved : ∀ s e, Inv s → ok s e → Inv (step s e))
    {s : σ} {events : List ε} (start : Inv s) (h : Along ok step s events) : Inv (run step s events) := by
  induction events generalizing s with
  | nil => exact start
  | cons e rest ih => exact ih (preserved s e start h.1) h.2

/-- The unconditional form of the invariant rule. -/
theorem run_invariant_always {step : σ → ε → σ} {Inv : σ → Prop}
    (preserved : ∀ s e, Inv s → Inv (step s e)) {s : σ} (start : Inv s) (events : List ε) :
    Inv (run step s events) := by
  induction events generalizing s with
  | nil => exact start
  | cons e rest ih => exact ih (preserved s e start)

/-! ### What a run puts out -/

/-- What the steps of a run put out, in order. -/
def collect {α : Type} (step : σ → ε → σ) (out : σ → ε → List α) : σ → List ε → List α
  | _, [] => []
  | s, e :: rest => out s e ++ collect step out (step s e) rest

/-- The invariant rule for the state together with all that was put out so far. -/
theorem collect_invariant {α : Type} {ok : σ → ε → Prop} {step : σ → ε → σ} {out : σ → ε → List α}
    {Inv : σ → List α → Prop} (preserved : ∀ s xs e, Inv s xs → ok s e → Inv (step s e) (xs ++ out s e))
    {s : σ} {xs : List α} {events : List ε} (start : Inv s xs) (h : Along ok step s events) :
    Inv (run step s events) (xs ++ collect step out s events) := by
  induction events generalizing s xs with
  | nil => rwa [collect, List.append_nil]
  | cons e rest ih =>
    rw [collect, ← List.append_assoc]
    exact ih (preserved s xs e start h.1) h.2

theorem collect_append {α : Type} (step : σ → ε → σ) (out : σ → ε → List α) (s : σ) (first rest : List ε) :
    collect step out s (first ++ rest) = collect step out s first ++ collect step out (run step s first) rest := by
  induction first generalizing s with
  | nil => rfl
  | cons e first ih => rw [List.cons_append, collect, collect, ih, run_cons, List.append_assoc]

theorem collect_flatMap {α β : Type} (step : σ → ε → σ) (out : σ → ε → List α) (f : α → List β) (s : σ) (events : List ε) :
    (collect step out s events).flatMap f = collect step (fun s e => (out s e).flatMap f) s events := by
  induction events generalizing s with
  | nil => rfl
  | cons e rest ih => rw [collect, collect, List.flatMap_append, ih]

/-- The purging rule: events that do nothing may be left out. -/
theorem run_filter {α : Type} {step : σ → ε → σ} {out : σ → ε → List α} {Inv : σ → Prop} {idle : ε → Bool}
    (preserved : ∀ s e, Inv s → Inv (step s e)) (stays : ∀ s e, Inv s → idle e = true → step s e = s ∧ out s e = [])
    {s : σ} (start : Inv s) (events : List ε) :
    run step s (events.filter (!idle ·)) = run step s events ∧
      collect step out s (events.filter (!idle ·)) = collect step out s events := by
  induction events generalizing s with
  | nil => exact ⟨rfl, rfl⟩
  | cons e rest ih =>
    obtain ⟨hrun, hout⟩ := ih (preserved s e start)
    rw [List.filter_cons]
    cases hidle : idle e with
    | true =>
      obtain ⟨hstep, hnone⟩ := stays s e start hidle
      rw [hstep] at hrun hout
      rw [Bool.not_true, if_neg Bool.false_ne_true, run_cons, collect, hstep, hnone]
      exact ⟨hrun, hout⟩
    | false =>
      rw [Bool.not_false, if_pos rfl, run_cons, run_cons, collect, collect, hrun, hout]
      exact ⟨rfl, rfl⟩

/-- The potential rule: where what an accepted step puts out is paid by the potential it takes
away and by what comes in with it, what a run puts out is paid by the potential at its start
and by all that came in. -/
theorem collect_potential {α β : Type} {ok : σ → ε → Prop} {step : σ → ε → σ} {out : σ → ε → List α}
    {paid : σ → ε → List β} {potential : σ → Nat}
    (pays : ∀ s e, ok s e → (out s e).length + potential (step s e) ≤ potential s + (paid s e).length)
    {s : σ} {events : List ε} (h : Along ok step s events) :
    (collect step out s events).length + potential (run step s events) ≤
      potential s + (collect step paid s events).length := by
  induction events generalizing s with
  | nil => exact Nat.le_of_eq (Nat.add_comm _ _)
  | cons e rest ih =>
    have hstep := pays s e h.1
    have hrest := ih h.2
    rw [collect, collect, List.length_append, List.length_append, run_cons]
    omega

/-- The simulation rule: where each step is matched by some steps of another machine that
put out the same, so is each run. -/
theorem run_simulated {α ε' : Type} {step : σ → ε → σ} {out : σ → ε → List α} {step' : τ → ε' → τ}
    {out' : τ → ε' → List α} {matching : σ → ε → List ε'} {R : σ → τ → Prop}
    (simulates : ∀ s t e, R s t →
      R (step s e) (run step' t (matching s e)) ∧ out s e = collect step' out' t (matching s e))
    {s : σ} {t : τ} (start : R s t) (events : List ε) :
    R (run step s events) (run step' t (collect step matching s events)) ∧
      collect step out s events = collect step' out' t (collect step matching s events) := by
  induction events generalizing s t with
  | nil => exact ⟨start, rfl⟩
  | cons e rest ih =>
    obtain ⟨hnext, hout⟩ := simulates s t e start
    obtain ⟨hrest, houts⟩ := ih hnext
    refine ⟨?_, ?_⟩
    · rw [collect, run_cons, run_append]
      exact hrest
    · rw [collect, collect, collect_append, hout, houts]

/-- The refinement rule: where each accepted step is matched by accepted steps of another
machine, so is each run of accepted steps. -/
theorem along_simulated {ε' : Type} {ok : σ → ε → Prop} {step : σ → ε → σ} {ok' : τ → ε' → Prop} {step' : τ → ε' → τ}
    {matching : σ → ε → List ε'} {R : σ → τ → Prop}
    (simulates : ∀ s t e, R s t → ok s e →
      R (step s e) (run step' t (matching s e)) ∧ Along ok' step' t (matching s e))
    {s : σ} {t : τ} {events : List ε} (start : R s t) (h : Along ok step s events) :
    R (run step s events) (run step' t (collect step matching s events)) ∧
      Along ok' step' t (collect step matching s events) := by
  induction events generalizing s t with
  | nil => exact ⟨start, trivial⟩
  | cons e rest ih =>
    obtain ⟨hnext, hok⟩ := simulates s t e start h.1
    obtain ⟨hrest, hoks⟩ := ih hnext h.2
    rw [collect, run_cons, run_append, along_append]
    exact ⟨hrest, hok, hoks⟩

end NetherNet.Library.Machine
