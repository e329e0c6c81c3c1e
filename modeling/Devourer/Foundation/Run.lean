import Mathlib.Data.List.Forall2
import Mathlib.Data.List.Induction

/-! # Runs that emit events and may abort

An `Exec` is the outcome of a computation that reports events on its way and
either returns a value or aborts; what was reported before an abort stays
reported. `Exec.run` feeds a list of inputs to a step function. The rules are
the two that a development about such a step function needs: an invariant
relating the inputs read, the events reported and the state
(`Exec.run_invariant`), and a lockstep relation between two runs whose
observations agree (`Exec.outputs_map_eq`).
-/

/-- Events reported, and the value returned unless the computation aborted. -/
structure Exec (ε α : Type*) where
  events : List ε
  result : Option α

namespace Exec

variable {ε ι δ : Type*} {α β σ : Type}

protected def pure (value : α) : Exec ε α := ⟨[], some value⟩

protected def bind (first : Exec ε α) (next : α → Exec ε β) : Exec ε β :=
  match first.result with
  | none => ⟨first.events, none⟩
  | some value => ⟨first.events ++ (next value).events, (next value).result⟩

/-- Report one event. -/
def emit (event : ε) : Exec ε Unit := ⟨[event], some ()⟩

/-- Stop for good. -/
def abort : Exec ε α := ⟨[], none⟩

/-- Return a value if there is one. -/
def ofOption (value : Option α) : Exec ε α := ⟨[], value⟩

/-- Report events as others. -/
def mapEvents {ε' : Type*} (name : ε → ε') (outcome : Exec ε α) : Exec ε' α :=
  ⟨outcome.events.map name, outcome.result⟩

instance : Monad (Exec ε) where
  pure := Exec.pure
  bind := Exec.bind

@[simp] theorem pure_events (value : α) : (pure value : Exec ε α).events = [] := rfl

@[simp] theorem pure_result (value : α) : (pure value : Exec ε α).result = some value := rfl

@[simp] theorem abort_events : (abort : Exec ε α).events = [] := rfl

/-- Binding continues from the value and keeps the earlier events in front. -/
theorem bind_of_result {first : Exec ε α} {next : α → Exec ε β} {value : α}
    (returned : first.result = some value) :
    first >>= next = ⟨first.events ++ (next value).events, (next value).result⟩ := by
  change Exec.bind first next = _
  simp only [Exec.bind, returned]

theorem bind_of_abort {first : Exec ε α} {next : α → Exec ε β} (aborted : first.result = none) :
    first >>= next = ⟨first.events, none⟩ := by
  change Exec.bind first next = _
  simp only [Exec.bind, aborted]

theorem bind_result_eq_some {first : Exec ε α} {next : α → Exec ε β} {value : β} :
    (first >>= next).result = some value ↔
      ∃ middle, first.result = some middle ∧ (next middle).result = some value := by
  cases returned : first.result with
  | none => simp [bind_of_abort returned]
  | some middle => simp [bind_of_result returned]

@[simp] theorem pure_bind (value : α) (next : α → Exec ε β) :
    (pure value : Exec ε α) >>= next = next value := rfl

/-- What holds of all events holds of those of both parts. -/
theorem forall_bind_events {first : Exec ε α} {next : α → Exec ε β} {holds : ε → Prop} :
    (∀ event ∈ (first >>= next).events, holds event) ↔
      (∀ event ∈ first.events, holds event) ∧
        ∀ value, first.result = some value → ∀ event ∈ (next value).events, holds event := by
  cases returned : first.result with
  | none =>
      rw [bind_of_abort returned]
      exact (and_iff_left nofun).symm
  | some value =>
      rw [bind_of_result returned, List.forall_mem_append]
      simp only [Option.some.injEq, forall_eq']

@[simp] theorem ofOption_some_bind (value : α) (next : α → Exec ε β) :
    ofOption (some value) >>= next = next value := rfl

@[simp] theorem ofOption_none_bind (next : α → Exec ε β) :
    ofOption none >>= next = abort := rfl

@[simp] theorem emit_bind (event : ε) (next : Unit → Exec ε β) :
    emit event >>= next = ⟨event :: (next ()).events, (next ()).result⟩ := rfl

/-- Report events as others and put the value into a larger one. -/
theorem mapEvents_bind_pure {ε' : Type*} (name : ε → ε') (outcome : Exec ε α) (build : α → β) :
    (outcome.mapEvents name >>= fun value => pure (build value)) =
      ⟨outcome.events.map name, outcome.result.map build⟩ := by
  obtain ⟨events, result⟩ := outcome
  cases result with
  | none => rfl
  | some value => exact congrArg (Exec.mk · _) (List.append_nil _)

/-- Feed a list of inputs to a step function, stopping at the first abort. -/
def run (step : σ → ι → Exec ε σ) : σ → List ι → Exec ε σ
  | state, [] => pure state
  | state, input :: inputs => step state input >>= fun next => run step next inputs

variable {step : σ → ι → Exec ε σ} {start : σ}

/-- A run of two lists is the first run followed by the second. -/
theorem run_append (first second : List ι) : run step start (first ++ second) =
    run step start first >>= fun middle => run step middle second := by
  induction first generalizing start with
  | nil => rfl
  | cons input first ih =>
      change step start input >>= _ = (step start input >>= _) >>= _
      cases returned : (step start input).result with
      | none => rw [bind_of_abort returned, bind_of_abort returned, bind_of_abort rfl]
      | some next =>
          rw [bind_of_result returned, bind_of_result returned]
          change Exec.mk (_ ++ (run step next (first ++ second)).events)
            (run step next (first ++ second)).result = _
          rw [ih]
          cases finished : (run step next first).result with
          | none => rw [bind_of_abort finished, bind_of_abort rfl]
          | some middle =>
              rw [bind_of_result finished, bind_of_result rfl]
              simp only [List.append_assoc]

/-- The state after one more input. -/
theorem run_snoc_result {inputs : List ι} {input : ι} {state : σ} :
    (run step start (inputs ++ [input])).result = some state ↔
      ∃ middle, (run step start inputs).result = some middle ∧
        (step middle input).result = some state := by
  rw [run_append, bind_result_eq_some]
  simp only [run, bind_result_eq_some, pure_result, Option.some.injEq, exists_eq_right]

/-- The events after one more input. -/
theorem run_snoc_events {inputs : List ι} (input : ι) {middle : σ}
    (reached : (run step start inputs).result = some middle) :
    (run step start (inputs ++ [input])).events =
      (run step start inputs).events ++ (step middle input).events := by
  rw [run_append, bind_of_result reached]
  cases returned : (step middle input).result with
  | none => simp only [run, bind_of_abort returned]
  | some next => simp only [run, bind_of_result returned, pure_events, List.append_nil]

/-- The first inputs of a run that returns bring it to a state. -/
theorem exists_run_take {inputs : List ι} {state : σ}
    (reached : (run step start inputs).result = some state) (n : ℕ) :
    ∃ middle, (run step start (inputs.take n)).result = some middle := by
  rw [← List.take_append_drop n inputs, run_append, bind_result_eq_some] at reached
  obtain ⟨middle, returned, -⟩ := reached
  exact ⟨middle, returned⟩

/-- A run that aborted reads no further input. -/
theorem run_snoc_of_abort {inputs : List ι} (input : ι)
    (aborted : (run step start inputs).result = none) :
    run step start (inputs ++ [input]) = ⟨(run step start inputs).events, none⟩ := by
  rw [run_append, bind_of_abort aborted]

/-- **Invariants of runs.** A relation between the inputs read, the events
reported and the state that one step preserves holds after every run. -/
theorem run_invariant (invariant : List ι → List ε → σ → Prop)
    (initial : invariant [] [] start)
    (preserved : ∀ inputs input state next,
      invariant inputs (run step start inputs).events state →
      (step state input).result = some next →
      invariant (inputs ++ [input]) ((run step start inputs).events ++ (step state input).events)
        next)
    (inputs : List ι) (state : σ) (reached : (run step start inputs).result = some state) :
    invariant inputs (run step start inputs).events state := by
  induction inputs using List.reverseRecOn generalizing state with
  | nil =>
      cases reached
      exact initial
  | append_singleton inputs input ih =>
      obtain ⟨middle, earlier, stepped⟩ := run_snoc_result.mp reached
      rw [run_snoc_events input earlier]
      exact preserved inputs input middle state (ih middle earlier) stepped

/-- An entry of a list with one more at its end is this one or stands before it. -/
theorem snoc_cases {front back : List ι} {input call : ι}
    (split : inputs ++ [input] = front ++ call :: back) :
    front = inputs ∧ call = input ∧ back = [] ∨
      ∃ between, back = between ++ [input] ∧ inputs = front ++ call :: between := by
  rcases List.eq_nil_or_concat' back with rfl | ⟨between, last, rfl⟩
  · obtain ⟨rfl, rfl⟩ := List.append_singleton_inj.mp split
    exact .inl ⟨rfl, rfl, rfl⟩
  · rw [← List.cons_append, ← List.append_assoc] at split
    obtain ⟨rfl, rfl⟩ := List.append_singleton_inj.mp split
    exact .inr ⟨between, rfl, rfl⟩

/-- What holds of every input of a list, given those before it. -/
theorem forall_snoc_front {holds : List ι → ι → Prop} {inputs : List ι} {input : ι} :
    (∀ calls other, calls ++ [other] <+: inputs ++ [input] → holds calls other) ↔
      (∀ calls other, calls ++ [other] <+: inputs → holds calls other) ∧ holds inputs input := by
  constructor
  · intro each
    exact ⟨fun calls other inside => each calls other (inside.trans (List.prefix_append _ _)),
      each inputs input (List.prefix_refl _)⟩
  · rintro ⟨before, here⟩ calls other shorter
    rcases List.prefix_concat_iff.mp shorter with whole | inside
    · obtain ⟨rfl, rfl⟩ := List.append_singleton_inj.mp whole
      exact here
    · exact before calls other inside

theorem forall_nil_front (holds : List ι → ι → Prop) :
    ∀ calls other, calls ++ [other] <+: [] → holds calls other := by
  intro calls other front
  have none := List.prefix_nil.mp front
  simp at none

/-- Every state of a run and the input read in it are so related. -/
def Along (step : σ → ι → Exec ε σ) (holds : σ → ι → Prop) : σ → List ι → Prop
  | _, [] => True
  | state, input :: inputs =>
      holds state input ∧ ∀ next ∈ (step state input).result, Along step holds next inputs

instance Along.decidable {holds : σ → ι → Prop} [∀ state input, Decidable (holds state input)]
    (start : σ) (inputs : List ι) : Decidable (Along step holds start inputs) :=
  match inputs with
  | [] => .isTrue trivial
  | input :: inputs =>
      have (next : σ) : Decidable (Along step holds next inputs) :=
        Along.decidable next inputs
      inferInstanceAs (Decidable (holds start input ∧
        ∀ next ∈ (step start input).result, Along step holds next inputs))

/-- The states of a run are those that its fronts reach. -/
theorem along_iff {holds : σ → ι → Prop} {inputs : List ι} :
    Along step holds start inputs ↔ ∀ calls input, calls ++ [input] <+: inputs → ∀ state,
      (run step start calls).result = some state → holds state input := by
  induction inputs generalizing start with
  | nil => exact iff_of_true trivial (forall_nil_front _)
  | cons first inputs ih =>
      unfold Along
      constructor
      · rintro ⟨here, later⟩ calls input front state reached
        cases calls with
        | nil =>
            obtain ⟨rfl, -⟩ := List.cons_prefix_cons.mp front
            cases reached
            exact here
        | cons call calls =>
            obtain ⟨rfl, rest⟩ := List.cons_prefix_cons.mp front
            obtain ⟨next, returned, reached⟩ := bind_result_eq_some.mp reached
            exact ih.mp (later next returned) calls input rest state reached
      · intro each
        refine ⟨each [] first ⟨inputs, rfl⟩ start rfl, fun next returned => ih.mpr ?_⟩
        intro calls input front state reached
        refine each (first :: calls) input (List.cons_prefix_cons.mpr ⟨rfl, front⟩) state ?_
        exact bind_result_eq_some.mpr ⟨next, returned, reached⟩

/-- What holds of all events of a run holds of those of every step. -/
theorem forall_run_events {holds : ε → Prop} {inputs : List ι} :
    (∀ event ∈ (run step start inputs).events, holds event) ↔
      ∀ calls input, calls ++ [input] <+: inputs → ∀ state,
        (run step start calls).result = some state →
          ∀ event ∈ (step state input).events, holds event := by
  induction inputs using List.reverseRecOn with
  | nil => exact iff_of_true (List.forall_mem_nil _) (forall_nil_front _)
  | append_singleton inputs input ih =>
      rw [run_append, forall_bind_events, ih, forall_snoc_front]
      simp only [run, forall_bind_events, pure_events, List.not_mem_nil, IsEmpty.forall_iff,
        implies_true, and_true]

/-- **Which runs keep an invariant** between the inputs read and the state. When a step from
a reachable state keeps the invariant exactly if it is quiet, a run keeps it all along
exactly if all its steps that return are quiet. -/
theorem invariant_iff_quiet {invariant : List ι → σ → Prop} {quiet : σ → ι → Prop}
    (initial : invariant [] start)
    (each : ∀ calls state, (run step start calls).result = some state → invariant calls state →
      ∀ input next, (step state input).result = some next →
        (invariant (calls ++ [input]) next ↔ quiet state input))
    {inputs : List ι} :
    (∀ calls, calls <+: inputs → ∀ state, (run step start calls).result = some state →
      invariant calls state) ↔
    ∀ calls input, calls ++ [input] <+: inputs → ∀ state,
      (run step start calls).result = some state → ∀ next,
        (step state input).result = some next → quiet state input := by
  induction inputs using List.reverseRecOn with
  | nil =>
      refine iff_of_true (fun calls front state same => ?_) (forall_nil_front _)
      obtain rfl := List.prefix_nil.mp front
      cases same
      exact initial
  | append_singleton inputs input ih =>
      rw [forall_snoc_front, ← ih]
      simp only [List.prefix_concat_iff, or_imp, forall_and, forall_eq]
      rw [and_comm]
      refine and_congr_right fun before => ?_
      have here := fun state earlier => each inputs state earlier
        (before inputs (List.prefix_refl _) state earlier) input
      constructor
      · intro holds state earlier next stepped
        exact (here state earlier next stepped).mp
          (holds next (run_snoc_result.mpr ⟨state, earlier, stepped⟩))
      · intro quiet state reached
        obtain ⟨middle, earlier, stepped⟩ := run_snoc_result.mp reached
        exact (here middle earlier state stepped).mpr (quiet middle earlier state stepped)

/-- In a run that returns, all steps do. -/
theorem step_returns {inputs calls : List ι} {input : ι} {last state : σ}
    (reached : (run step start inputs).result = some last) (front : calls ++ [input] <+: inputs)
    (earlier : (run step start calls).result = some state) :
    ∃ next, (step state input).result = some next := by
  obtain ⟨rest, rfl⟩ := front
  rw [run_append, bind_result_eq_some] at reached
  obtain ⟨next, returned, -⟩ := reached
  obtain ⟨middle, same, stepped⟩ := run_snoc_result.mp returned
  cases earlier.symm.trans same
  exact ⟨next, stepped⟩

theorem invariant_iff {invariant : σ → Prop} {quiet : σ → ι → Prop} (initial : invariant start)
    (each : ∀ calls state, (run step start calls).result = some state → invariant state →
      ∀ input next, (step state input).result = some next → (invariant next ↔ quiet state input))
    {inputs : List ι} {last : σ} (reached : (run step start inputs).result = some last) :
    (∀ calls, calls <+: inputs → ∀ state, (run step start calls).result = some state →
      invariant state) ↔
    ∀ calls input, calls ++ [input] <+: inputs → ∀ state,
      (run step start calls).result = some state → quiet state input := by
  have whole : (∀ calls, calls <+: inputs → ∀ state,
      (run step start calls).result = some state → invariant state) ↔ _ :=
    invariant_iff_quiet initial each
  rw [whole]
  constructor
  · intro quiet calls input front state earlier
    obtain ⟨next, stepped⟩ := step_returns reached front earlier
    exact quiet calls input front state earlier next stepped
  · exact fun quiet calls input front state earlier _ _ => quiet calls input front state earlier

/-- The sum of an amount taken at each input from the state that reads it. -/
def total (step : σ → ι → Exec ε σ) (amount : σ → ι → ℕ) : σ → List ι → ℕ
  | _, [] => 0
  | state, input :: inputs => amount state input +
      match (step state input).result with
      | none => 0
      | some next => total step amount next inputs

theorem total_cons {step : σ → ι → Exec ε σ} {amount : σ → ι → ℕ} {state next : σ} {input : ι}
    (inputs : List ι) (returned : (step state input).result = some next) :
    total step amount state (input :: inputs) =
      amount state input + total step amount next inputs := by
  rw [total, returned]

theorem total_snoc {step : σ → ι → Exec ε σ} (amount : σ → ι → ℕ) {start state : σ}
    {inputs : List ι} (input : ι) (reached : (run step start inputs).result = some state) :
    total step amount start (inputs ++ [input]) =
      total step amount start inputs + amount state input := by
  induction inputs generalizing start with
  | nil =>
      cases reached
      rw [List.nil_append, total, total, Nat.zero_add]
      cases returned : (step state input).result with
      | none => exact Nat.add_zero _
      | some next => exact Nat.add_zero _
  | cons first rest ih =>
      obtain ⟨next, returned, rested⟩ := bind_result_eq_some.mp reached
      rw [List.cons_append, total_cons _ returned, total_cons _ returned, ih rested, Nat.add_assoc]

/-- The events of a run, one list for each input reached. -/
def outputs (step : σ → ι → Exec ε σ) : σ → List ι → List (List ε)
  | _, [] => []
  | state, input :: inputs => (step state input).events ::
      match (step state input).result with
      | none => []
      | some next => outputs step next inputs

/-- **Two runs in lockstep.** When one step from related states on related inputs
shows the same observation and leaves related states, or aborts in both runs,
the two runs show the same observation at every position. -/
theorem outputs_map_eq {ε' ι' : Type*} {σ' : Type} {step' : σ' → ι' → Exec ε' σ'}
    (view : List ε → δ) (view' : List ε' → δ) (related : σ → σ' → Prop) (alike : ι → ι' → Prop)
    (lockstep : ∀ first second left right, related first second → alike left right →
      view (step first left).events = view' (step' second right).events ∧
        Option.Rel related (step first left).result (step' second right).result)
    {lefts : List ι} {rights : List ι'} (inputs : List.Forall₂ alike lefts rights) {first : σ}
    {second : σ'} (start : related first second) :
    (outputs step first lefts).map view = (outputs step' second rights).map view' := by
  induction inputs generalizing first second with
  | nil => rfl
  | @cons left right lefts rights here _ ih =>
      obtain ⟨same, continues⟩ := lockstep first second left right start here
      simp only [outputs, List.map_cons, same]
      revert continues
      cases (step first left).result <;> cases (step' second right).result <;> intro continues
      · rfl
      · cases continues
      · cases continues
      · cases continues with
        | some next => rw [ih next]

end Exec

/-! ## Events of several objects in a row -/

variable {ε ι δ : Type*} [DecidableEq ι]

/-- What is selected of the events of several objects, when only those of one of them
are, comes from this object. -/
theorem filterMap_flatMap_of_nodup {ids : List ι} (nodup : ids.Nodup) (events : ι → List ε) {id : ι}
    {select : ε → Option δ}
    (own : ∀ other ∈ ids, other ≠ id → (events other).filterMap select = []) :
    (ids.flatMap events).filterMap select =
      if id ∈ ids then (events id).filterMap select else [] := by
  induction ids with
  | nil => rfl
  | cons other rest ih =>
      obtain ⟨off, nodup⟩ := List.nodup_cons.mp nodup
      rw [List.flatMap_cons, List.filterMap_append,
        ih nodup fun later member => own later (List.mem_cons_of_mem _ member)]
      by_cases self : other = id
      · subst self
        rw [if_neg off, if_pos List.mem_cons_self, List.append_nil]
      · have different : id ≠ other := fun same => self same.symm
        rw [own other List.mem_cons_self self]
        simp only [List.nil_append, List.mem_cons, different, false_or]

theorem countP_flatMap_of_nodup {ids : List ι} (nodup : ids.Nodup) (events : ι → List ε) {id : ι}
    {pred : ε → Bool} (own : ∀ other ∈ ids, other ≠ id → (events other).countP pred = 0) :
    (ids.flatMap events).countP pred = if id ∈ ids then (events id).countP pred else 0 := by
  simp only [List.countP_eq_length_filter, ← List.filterMap_eq_filter] at own ⊢
  rw [filterMap_flatMap_of_nodup nodup events fun other member different =>
    List.eq_nil_of_length_eq_zero (own other member different)]
  split <;> rfl
