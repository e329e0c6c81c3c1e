import Devourer.Foundation.Run
import Mathlib.Order.Basic

/-! # Which step of a run built an object

A state may number the objects that were built so far, so that a step that builds objects
moves a counter past their numbers (`Exec.BuiltIn`). When no step moves the counter back,
every number below it was built by exactly one input of the run. Which input did something
to it last is `Exec.LastOf`.
-/

namespace Exec

variable {ε ι : Type*} {σ : Type} {step : σ → ι → Exec ε σ} {start state : σ} {count : σ → ℕ}
  {inputs : List ι} {id : ℕ}

/-- The input, read in the run, moved the counter past the number. -/
def BuiltIn (step : σ → ι → Exec ε σ) (start : σ) (count : σ → ℕ) (inputs : List ι) (id : ℕ)
    (input : ι) : Prop :=
  ∃ front back before after, inputs = front ++ input :: back ∧
    (run step start front).result = some before ∧ (step before input).result = some after ∧
    count before ≤ id ∧ id < count after

theorem BuiltIn.append {call : ι} (built : BuiltIn step start count inputs id call)
    (more : List ι) : BuiltIn step start count (inputs ++ more) id call := by
  obtain ⟨front, back, before, after, rfl, facts⟩ := built
  exact ⟨front, back ++ more, before, after, by simp, facts⟩

theorem not_builtIn_nil {call : ι} : ¬ BuiltIn step start count [] id call := by
  rintro ⟨front, back, before, after, split, -⟩
  cases (List.append_eq_nil_iff.mp split.symm).2

/-- What one more input builds. -/
theorem builtIn_snoc {input call : ι} (reached : (run step start inputs).result = some state) :
    BuiltIn step start count (inputs ++ [input]) id call ↔
      BuiltIn step start count inputs id call ∨
        call = input ∧ ∃ after, (step state input).result = some after ∧
          count state ≤ id ∧ id < count after := by
  constructor
  · rintro ⟨front, back, before, after, split, earlier, stepped, lower, upper⟩
    rcases snoc_cases split with ⟨rfl, rfl, -⟩ | ⟨between, -, rfl⟩
    · cases reached.symm.trans earlier
      exact .inr ⟨rfl, after, stepped, lower, upper⟩
    · exact .inl ⟨front, between, before, after, rfl, earlier, stepped, lower, upper⟩
  · rintro (built | ⟨rfl, after, stepped, lower, upper⟩)
    · exact built.append [input]
    · exact ⟨inputs, [], state, after, rfl, reached, stepped, lower, upper⟩

/-- What was counted was built. -/
theorem exists_builtIn (reached : (run step start inputs).result = some state)
    (late : count start ≤ id) (known : id < count state) :
    ∃ call, BuiltIn step start count inputs id call := by
  induction inputs using List.reverseRecOn generalizing state with
  | nil =>
      cases reached
      exact (Nat.not_lt.mpr late known).elim
  | append_singleton inputs input ih =>
      obtain ⟨middle, earlier, stepped⟩ := run_snoc_result.mp reached
      by_cases old : id < count middle
      · obtain ⟨call, built⟩ := ih earlier old
        exact ⟨call, built.append [input]⟩
      · exact ⟨input, (builtIn_snoc earlier).mpr
          (.inr ⟨rfl, state, stepped, Nat.not_lt.mp old, known⟩)⟩

/-- The last input of the list for which something held when it was read. -/
def LastOf (holds : List ι → ι → Prop) (inputs : List ι) (input : ι) : Prop :=
  ∃ front back, inputs = front ++ input :: back ∧ holds front input ∧
    ∀ middle later rest, back = middle ++ later :: rest → ¬ holds (front ++ input :: middle) later

theorem lastOf_snoc {holds : List ι → ι → Prop} {input call : ι} :
    LastOf holds (inputs ++ [input]) call ↔
      holds inputs input ∧ call = input ∨ ¬ holds inputs input ∧ LastOf holds inputs call := by
  constructor
  · rintro ⟨front, back, split, held, last⟩
    rcases snoc_cases split with ⟨rfl, rfl, -⟩ | ⟨between, rfl, rfl⟩
    · exact .inl ⟨held, rfl⟩
    · refine .inr ⟨last between input [] rfl, front, between, rfl, held,
        fun middle later rest inside => ?_⟩
      exact last middle later (rest ++ [input]) (by rw [inside]; simp)
  · rintro (⟨held, rfl⟩ | ⟨idle, front, back, rfl, held, last⟩)
    · exact ⟨inputs, [], rfl, held, fun middle later rest none => by simp at none⟩
    · refine ⟨front, back ++ [input], by simp, held, fun middle later rest split => ?_⟩
      rcases snoc_cases split with ⟨rfl, rfl, -⟩ | ⟨between, -, inside⟩
      · exact idle
      · exact last middle later between inside

section Growing

variable (grows : ∀ calls state, (run step start calls).result = some state → ∀ input next,
  (step state input).result = some next → count state ≤ count next)

include grows

/-- The counter is never taken back. -/
theorem count_le_of_prefix {front : List ι} {middle : σ} (prior : front <+: inputs)
    (earlier : (run step start front).result = some middle)
    (reached : (run step start inputs).result = some state) : count middle ≤ count state := by
  induction inputs using List.reverseRecOn generalizing state with
  | nil =>
      obtain rfl := List.prefix_nil.mp prior
      cases earlier.symm.trans reached
      exact Nat.le_refl _
  | append_singleton inputs input ih =>
      obtain ⟨before, sooner, stepped⟩ := run_snoc_result.mp reached
      rcases List.prefix_concat_iff.mp prior with rfl | inside
      · cases earlier.symm.trans reached
        exact Nat.le_refl _
      · exact Nat.le_trans (ih inside sooner) (grows inputs before sooner input state stepped)

/-- The counter has passed what was built. -/
theorem BuiltIn.lt {call : ι} (built : BuiltIn step start count inputs id call)
    (reached : (run step start inputs).result = some state) : id < count state := by
  induction inputs using List.reverseRecOn generalizing state with
  | nil => exact (not_builtIn_nil built).elim
  | append_singleton inputs input ih =>
      obtain ⟨middle, earlier, stepped⟩ := run_snoc_result.mp reached
      rcases (builtIn_snoc earlier).mp built with built | ⟨rfl, after, same, -, upper⟩
      · have kept := grows inputs middle earlier input state stepped
        exact Nat.lt_of_lt_of_le (ih built earlier) kept
      · cases stepped.symm.trans same
        exact upper

/-- **Every object was built by one input.** -/
theorem BuiltIn.unique {call other : ι} (built : BuiltIn step start count inputs id call)
    (built' : BuiltIn step start count inputs id other)
    (reached : (run step start inputs).result = some state) : call = other := by
  induction inputs using List.reverseRecOn generalizing state with
  | nil => exact (not_builtIn_nil built).elim
  | append_singleton inputs input ih =>
      obtain ⟨middle, earlier, -⟩ := run_snoc_result.mp reached
      rcases (builtIn_snoc earlier).mp built with old | ⟨rfl, -, -, lower, -⟩ <;>
        rcases (builtIn_snoc earlier).mp built' with old' | ⟨rfl, -, -, lower', -⟩
      · exact ih old old' earlier
      · exact (Nat.not_lt.mpr lower' (old.lt grows earlier)).elim
      · exact (Nat.not_lt.mpr lower (old'.lt grows earlier)).elim
      · rfl

/-- What is read of the inputs that built the objects, by the numbers of these. -/
theorem exists_read {β : Type*} [Nonempty β] (read : ι → β)
    (reached : (run step start inputs).result = some state) :
    ∃ value : ℕ → β, ∀ id call, BuiltIn step start count inputs id call → value id = read call := by
  have each : ∀ id, ∃ value, ∀ call, BuiltIn step start count inputs id call →
      value = read call := by
    intro id
    by_cases known : ∃ call, BuiltIn step start count inputs id call
    · obtain ⟨call, built⟩ := known
      exact ⟨read call, fun other built' => congrArg read (built.unique grows built' reached)⟩
    · exact ⟨Classical.arbitrary β, fun call built => (known ⟨call, built⟩).elim⟩
  exact Classical.skolem.mp each

end Growing

end Exec
