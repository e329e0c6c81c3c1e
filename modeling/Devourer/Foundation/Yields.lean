import Devourer.Foundation.Run

/-! # What a computation yields

`Exec.Yields` is total correctness: the computation returns, and its events and its value
satisfy a postcondition. Its rules follow the computation, and a run yields what each step
keeps (`Yields.run`).
-/

namespace Exec

variable {ε ι : Type*} {α β σ : Type}

/-- The computation returns, with events and a value as told. -/
def Yields (post : List ε → α → Prop) (outcome : Exec ε α) : Prop :=
  ∃ value, outcome.result = some value ∧ post outcome.events value

namespace Yields

variable {post : List ε → α → Prop} {post' : List ε → β → Prop} {outcome : Exec ε α}

/-- A computation that only returns has no events. -/
protected theorem pure {value : α} (here : post [] value) : Yields post (pure value) :=
  ⟨value, rfl, here⟩

/-- An event before the others. -/
theorem emit_bind {event : ε} {next : Unit → Exec ε β}
    (rest : Yields (fun events => post' (event :: events)) (next ())) :
    Yields post' (emit event >>= next) := by
  obtain ⟨value, returned, told⟩ := rest
  exact ⟨value, returned, told⟩

/-- One part after the other. -/
protected theorem bind {next : α → Exec ε β} (first : Yields post outcome)
    (rest : ∀ events value, post events value →
      Yields (fun more => post' (events ++ more)) (next value)) :
    Yields post' (outcome >>= next) := by
  obtain ⟨value, returned, told⟩ := first
  obtain ⟨value', returned', told'⟩ := rest _ value told
  rw [bind_of_result returned]
  exact ⟨value', returned', told'⟩

/-- Less may be told. -/
theorem mono {other : List ε → α → Prop} (yields : Yields post outcome)
    (weaker : ∀ events value, post events value → other events value) : Yields other outcome := by
  obtain ⟨value, returned, told⟩ := yields
  exact ⟨value, returned, weaker _ value told⟩

/-- What each step of a run keeps, the run yields. -/
protected theorem run {step : σ → ι → Exec ε σ} {start : σ}
    (invariant : List ι → List ε → σ → Prop) (initial : invariant [] [] start) {inputs : List ι}
    (kept : ∀ calls input, calls ++ [input] <+: inputs → ∀ events state,
      invariant calls events state →
        Yields (fun more => invariant (calls ++ [input]) (events ++ more)) (step state input)) :
    Yields (invariant inputs) (run step start inputs) := by
  induction inputs using List.reverseRecOn with
  | nil => exact .pure initial
  | append_singleton inputs input ih =>
      obtain ⟨middle, reached, told⟩ := ih fun calls other front =>
        kept calls other (front.trans (List.prefix_append _ _))
      obtain ⟨next, returned, told'⟩ := kept inputs input (List.prefix_refl _) _ middle told
      refine ⟨next, run_snoc_result.mpr ⟨middle, reached, returned⟩, ?_⟩
      rwa [run_snoc_events input reached]

end Yields

/-- The events of a run are those of its calls in a row. -/
theorem run_events (step : σ → ι → Exec ε σ) (start : σ) (inputs : List ι) :
    (run step start inputs).events = (outputs step start inputs).flatten := by
  induction inputs generalizing start with
  | nil => rfl
  | cons input rest ih =>
      change (step start input >>= _).events = _
      cases returned : (step start input).result with
      | none =>
          rw [bind_of_abort returned]
          simp only [outputs, returned, List.flatten_cons, List.flatten_nil, List.append_nil]
      | some next =>
          rw [bind_of_result returned]
          simp only [outputs, returned, List.flatten_cons, ih]

end Exec
