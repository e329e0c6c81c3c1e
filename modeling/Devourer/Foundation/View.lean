import Devourer.Foundation.Run

/-! # Machines seen in less detail

What is seen of a computation is some of its events, told as others, and a part of its value.
When each step of a machine is seen as steps of another machine, its runs are seen as runs of the
other machine, from what is seen of the start (`view_run`).
-/

namespace Exec

variable {ε ε' ι : Type*} {α β γ δ σ τ : Type}

theorem bind_assoc (first : Exec ε α) (second : α → Exec ε β) (third : β → Exec ε γ) :
    first >>= second >>= third = first >>= fun value => second value >>= third := by
  cases returned : first.result with
  | none =>
      have aborted : (first >>= second).result = none := by rw [bind_of_abort returned]
      rw [bind_of_abort aborted, bind_of_abort returned, bind_of_abort returned]
  | some value =>
      rw [bind_of_result returned, bind_of_result returned]
      cases returned' : (second value).result with
      | none =>
          rw [bind_of_abort rfl, bind_of_abort returned']
      | some value' =>
          rw [bind_of_result rfl, bind_of_result returned', List.append_assoc]

theorem run_singleton (step : σ → ι → Exec ε σ) (start : σ) (input : ι) :
    run step start [input] = step start input := by
  change step start input >>= pure = _
  obtain ⟨events, result⟩ := step start input
  cases result with
  | none => rfl
  | some next => exact congrArg (Exec.mk · _) (List.append_nil events)

/-- What is seen of a computation: some of its events, and a part of its value. -/
def view (see : ε → Option ε') (project : α → β) (outcome : Exec ε α) : Exec ε' β :=
  ⟨outcome.events.filterMap see, outcome.result.map project⟩

variable {see : ε → Option ε'} {project : α → β} {project' : γ → δ}

@[simp] theorem view_pure (value : α) :
    view see project (pure value) = pure (project value) := rfl

@[simp] theorem view_ofOption (value : Option α) :
    view see project (ofOption value) = ofOption (value.map project) := rfl

/-- An event that is seen. -/
theorem view_emit_bind {event : ε} {event' : ε'} (seen : see event = some event')
    (next : Unit → Exec ε γ) :
    view see project' (emit event >>= next) =
      emit event' >>= fun _ => view see project' (next ()) :=
  congrArg (Exec.mk · _) (List.filterMap_cons_some seen)

/-- A computation whose events are told as others, and whose value becomes a part of another. -/
theorem view_mapEvents_bind_pure {ε₁ : Type*} {see' : ε₁ → Option ε'} {name : ε → ε₁}
    (same : ∀ event, see' (name event) = see event) {build : α → γ} {build' : β → δ}
    (builds : ∀ value, project' (build value) = build' (project value)) (outcome : Exec ε α) :
    view see' project' (outcome.mapEvents name >>= fun value => pure (build value)) =
      view see project outcome >>= fun value => pure (build' value) := by
  obtain ⟨events, result⟩ := outcome
  have seen : (events.map name).filterMap see' = events.filterMap see := by
    rw [List.filterMap_map]
    congr 1
    exact funext same
  rw [mapEvents_bind_pure]
  cases result with
  | none => exact congrArg (Exec.mk · _) seen
  | some value =>
      exact congrArg₂ Exec.mk (seen.trans (List.append_nil _).symm) (congrArg some (builds value))

/-- What is seen of what is seen. -/
theorem view_view {ε'' : Type*} (see₂ : ε' → Option ε'') (project₂ : β → γ) (outcome : Exec ε α) :
    view see₂ project₂ (view see project outcome) =
      view (fun event => (see event).bind see₂) (fun value => project₂ (project value))
        outcome := by
  unfold view
  rw [List.filterMap_filterMap, Option.map_map]
  rfl

/-- What is seen of two computations in a row, when the second is seen as one that starts from
what is seen of the first. -/
theorem view_bind {outcome : Exec ε α} {next : α → Exec ε γ} {next' : β → Exec ε' δ}
    (nexts : ∀ value, outcome.result = some value →
      view see project' (next value) = next' (project value)) :
    view see project' (outcome >>= next) = view see project outcome >>= next' := by
  cases returned : outcome.result with
  | none =>
      have aborted : (view see project outcome).result = none := by
        rw [view, returned]
        rfl
      rw [bind_of_abort returned, bind_of_abort aborted]
      rfl
  | some value =>
      have seen : (view see project outcome).result = some (project value) := by
        rw [view, returned]
        rfl
      rw [bind_of_result returned, bind_of_result seen, ← nexts value returned]
      exact congrArg (Exec.mk · _) List.filterMap_append

/-- What holds of the states, and of the inputs still to come, holds at the end of a run. -/
theorem run_keeps {step : σ → ι → Exec ε σ} (holds : List ι → σ → Prop)
    (kept : ∀ state input rest next, holds (input :: rest) state →
      (step state input).result = some next → holds rest next)
    {inputs : List ι} {start last : σ} (starts : holds inputs start)
    (returned : (run step start inputs).result = some last) : holds [] last := by
  induction inputs generalizing start with
  | nil =>
      cases returned
      exact starts
  | cons input rest ih =>
      obtain ⟨next, stepped, later⟩ := bind_result_eq_some.mp returned
      exact ih (kept start input rest next starts stepped) later

/-- **A step of the first machine is a run of the second.** If every step that keeps to the
rules is seen as a run of the second machine, so is every run. What holds of the states may
speak of the inputs still to come. -/
theorem view_run {κ : Type*} {project : σ → τ} {step : σ → ι → Exec ε σ} {step' : τ → κ → Exec ε' τ}
    {expand : ι → List κ} (holds : List ι → σ → Prop) {fair : ε → Prop}
    (kept : ∀ state input rest next, holds (input :: rest) state →
      (∀ event ∈ (step state input).events, fair event) → (step state input).result = some next →
        holds rest next)
    (simulated : ∀ state input rest, holds (input :: rest) state →
      (∀ event ∈ (step state input).events, fair event) →
        view see project (step state input) = run step' (project state) (expand input))
    {inputs : List ι} {start : σ} (starts : holds inputs start)
    (fairs : ∀ event ∈ (run step start inputs).events, fair event) :
    view see project (run step start inputs) =
      run step' (project start) (inputs.flatMap expand) := by
  induction inputs generalizing start with
  | nil => rfl
  | cons input rest ih =>
      obtain ⟨here, later⟩ := forall_bind_events.mp fairs
      rw [List.flatMap_cons, run_append, ← simulated start input rest starts here]
      exact view_bind fun next returned =>
        ih (kept start input rest next starts here returned) (later next returned)

/-- A step of the first machine is a step of the second. -/
theorem view_run_map {κ : Type*} {project : σ → τ} {step : σ → ι → Exec ε σ}
    {step' : τ → κ → Exec ε' τ} {name : ι → κ} (holds : List ι → σ → Prop)
    (kept : ∀ state input rest next, holds (input :: rest) state →
      (step state input).result = some next → holds rest next)
    (simulated : ∀ state input rest, holds (input :: rest) state →
      view see project (step state input) = step' (project state) (name input))
    {inputs : List ι} {start : σ} (starts : holds inputs start) :
    view see project (run step start inputs) = run step' (project start) (inputs.map name) := by
  rw [← List.flatMap_pure_eq_map]
  apply view_run holds (fun state input rest next held _ => kept state input rest next held) _
    starts fun _ _ => trivial
  intro state input rest held _
  exact (simulated state input rest held).trans (run_singleton step' _ _).symm

end Exec
