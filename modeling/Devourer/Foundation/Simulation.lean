import Devourer.Foundation.Run

/-! # Computations that match

Two computations mirror each other when they report related events and either both return,
related values, or both abort; they match when they report the same events. Both compose along
`>>=`, so that step functions match part by part, and two step functions that match report the
same over whole runs (`Matches.outputs_eq`). A computation thins another when it leaves out
events that do not matter.
-/

namespace Exec

variable {ε ι : Type*} {α β γ δ σ τ : Type}

/-! ## Computations that report alike -/

/-- Related events, one for one, and related values or none. -/
structure Mirrors {ε' : Type*} (alike : ε → ε' → Prop) (related : α → β → Prop) (first : Exec ε α)
    (second : Exec ε' β) : Prop where
  events : List.Forall₂ alike first.events second.events
  result : Option.Rel related first.result second.result

namespace Mirrors

variable {ε' : Type*} {alike : ε → ε' → Prop} {related : α → β → Prop} {after : γ → δ → Prop}
  {first : Exec ε α} {second : Exec ε' β}

/-- Returning related values. -/
protected theorem pure {value : α} {value' : β} (here : related value value') :
    Mirrors alike related (pure value) (pure value') :=
  ⟨.nil, .some here⟩

/-- Aborting together, or going on with related values. -/
protected theorem ofOption {value : Option α} {value' : Option β}
    (here : Option.Rel related value value') :
    Mirrors alike related (ofOption value) (ofOption value') :=
  ⟨.nil, here⟩

/-- A value, and what is built from it. -/
theorem optionMap (build : α → β) (value : Option α) :
    Mirrors alike (fun value value' => value' = build value) (Exec.ofOption value)
      (Exec.ofOption (value.map build)) := by
  cases value with
  | none => exact .ofOption .none
  | some value => exact .ofOption (.some rfl)

/-- The same value, or none. -/
theorem option (value : Option α) :
    Mirrors alike Eq (Exec.ofOption value) (Exec.ofOption value) := by
  cases value with
  | none => exact .ofOption .none
  | some value => exact .ofOption (.some rfl)

/-- One event each. -/
protected theorem emit {event : ε} {event' : ε'} (here : alike event event') :
    Mirrors alike Eq (emit event) (emit event') :=
  ⟨.cons here .nil, .some rfl⟩

/-- One part after the other. -/
protected theorem bind {next : α → Exec ε γ} {next' : β → Exec ε' δ}
    (mirrors : Mirrors alike related first second)
    (nexts : ∀ value value', related value value' →
      Mirrors alike after (next value) (next' value')) :
    Mirrors alike after (first >>= next) (second >>= next') := by
  obtain ⟨same, results⟩ := mirrors
  cases returned : first.result with
  | none =>
      rw [returned] at results
      cases returned' : second.result with
      | none =>
          rw [bind_of_abort returned, bind_of_abort returned']
          exact ⟨same, .none⟩
      | some value' =>
          rw [returned'] at results
          cases results
  | some value =>
      rw [returned] at results
      cases returned' : second.result with
      | none =>
          rw [returned'] at results
          cases results
      | some value' =>
          rw [returned'] at results
          cases results with
          | some here =>
              obtain ⟨same', results'⟩ := nexts value value' here
              rw [bind_of_result returned, bind_of_result returned']
              exact ⟨List.rel_append same same', results'⟩

/-- Values may be related less closely. -/
theorem mono {weaker : α → β → Prop} (mirrors : Mirrors alike related first second)
    (implies : ∀ value value', related value value' → weaker value value') :
    Mirrors alike weaker first second := by
  refine ⟨mirrors.events, ?_⟩
  have results := mirrors.result
  revert results
  generalize first.result = value
  generalize second.result = value'
  rintro (here | -)
  · exact .some (implies _ _ here)
  · exact .none

/-- Events may be related less closely. -/
theorem imp {alike' : ε → ε' → Prop} (mirrors : Mirrors alike related first second)
    (implies : ∀ event event', alike event event' → alike' event event') :
    Mirrors alike' related first second :=
  ⟨mirrors.events.imp implies, mirrors.result⟩

/-- Both return, or none does. -/
theorem isSome (mirrors : Mirrors alike related first second) :
    first.result.isSome = second.result.isSome := by
  have results := mirrors.result
  revert results
  generalize first.result = value
  generalize second.result = value'
  rintro (here | -)
  · rfl
  · rfl

/-- Events that are told as others. -/
theorem mapEvents {ε₁ ε₂ : Type*} {alike' : ε₁ → ε₂ → Prop} {name : ε → ε₁} {name' : ε' → ε₂}
    (mirrors : Mirrors alike related first second)
    (named : ∀ event event', alike event event' → alike' (name event) (name' event')) :
    Mirrors alike' related (first.mapEvents name) (second.mapEvents name') := by
  refine ⟨?_, mirrors.result⟩
  apply List.forall₂_map_left_iff.mpr
  apply List.forall₂_map_right_iff.mpr
  exact mirrors.events.imp named

/-- Machines that report alike, on inputs that are alike. -/
protected theorem run {ι' : Type*} {step : σ → ι → Exec ε σ} {step' : τ → ι' → Exec ε' τ}
    {related : σ → τ → Prop} {given : ι → ι' → Prop}
    (steps : ∀ state state' input input', related state state' → given input input' →
      Mirrors alike related (step state input) (step' state' input'))
    {inputs : List ι} {inputs' : List ι'} (paired : List.Forall₂ given inputs inputs') {start : σ}
    {start' : τ} (starts : related start start') :
    Mirrors alike related (run step start inputs) (run step' start' inputs') := by
  induction paired generalizing start start' with
  | nil => exact .pure starts
  | cons here _ ih => exact (steps start start' _ _ starts here).bind fun _ _ => ih

end Mirrors

/-! ## Computations that report the same -/

/-- The same events, and related values or none. -/
structure Matches (related : α → β → Prop) (first : Exec ε α) (second : Exec ε β) : Prop where
  events : first.events = second.events
  result : Option.Rel related first.result second.result

namespace Matches

variable {related : α → β → Prop} {after : γ → δ → Prop} {first : Exec ε α} {second : Exec ε β}

/-- Returning related values. -/
protected theorem pure {value : α} {value' : β} (here : related value value') :
    Matches (ε := ε) related (pure value) (pure value') :=
  ⟨rfl, .some here⟩

/-- Aborting. -/
protected theorem abort : Matches (ε := ε) related abort abort :=
  ⟨rfl, .none⟩

/-- A computation matches itself. -/
protected theorem same (outcome : Exec ε α) : Matches Eq outcome outcome := by
  refine ⟨rfl, ?_⟩
  cases outcome.result with
  | none => exact .none
  | some value => exact .some rfl

/-- Aborting together, or going on with related values. -/
protected theorem ofOption {value : Option α} {value' : Option β}
    (here : Option.Rel related value value') :
    Matches (ε := ε) related (ofOption value) (ofOption value') :=
  ⟨rfl, here⟩

/-- Matching is mirroring with the same events. -/
theorem mirrors (matched : Matches related first second) : Mirrors Eq related first second :=
  ⟨List.forall₂_eq_eq_eq ▸ matched.events, matched.result⟩

/-- Events that are the same are alike. -/
theorem mirrors_of {alike : ε → ε → Prop} (same : ∀ event, alike event event)
    (matched : Matches related first second) : Mirrors alike related first second :=
  matched.mirrors.imp fun event _ equal => equal ▸ same event

/-- Mirroring with the same events is matching. -/
theorem of_mirrors (mirrors : Mirrors Eq related first second) : Matches related first second :=
  ⟨List.forall₂_eq_eq_eq ▸ mirrors.events, mirrors.result⟩

/-- One part after the other. -/
protected theorem bind {next : α → Exec ε γ} {next' : β → Exec ε δ}
    (first_matches : Matches related first second)
    (next_matches : ∀ value value', related value value' →
      Matches after (next value) (next' value')) :
    Matches after (first >>= next) (second >>= next') :=
  .of_mirrors (first_matches.mirrors.bind fun value value' here =>
    (next_matches value value' here).mirrors)

/-- Values may be related less closely. -/
theorem mono {weaker : α → β → Prop} (matched : Matches related first second)
    (implies : ∀ value value', related value value' → weaker value value') :
    Matches weaker first second :=
  .of_mirrors (matched.mirrors.mono implies)

/-- An event on both sides. -/
theorem emit_bind (event : ε) {next : Unit → Exec ε γ} {next' : Unit → Exec ε δ}
    (next_matches : Matches after (next ()) (next' ())) :
    Matches after (emit event >>= next) (emit event >>= next') :=
  ⟨congrArg (event :: ·) next_matches.events, next_matches.result⟩

/-- Step functions that match report the same in each call of a run. -/
theorem outputs_eq {step : σ → ι → Exec ε σ} {step' : τ → ι → Exec ε τ} {related : σ → τ → Prop}
    {inputs : List ι}
    (steps : ∀ state state', related state state' → ∀ input ∈ inputs,
      Matches related (step state input) (step' state' input))
    {start : σ} {start' : τ} (starts : related start start') :
    outputs step start inputs = outputs step' start' inputs := by
  have paired : List.Forall₂ (fun left right => left ∈ inputs ∧ left = right) inputs inputs := by
    rw [List.forall₂_same]
    exact fun input member => ⟨member, rfl⟩
  rw [← List.map_id (outputs step start inputs), ← List.map_id (outputs step' start' inputs)]
  apply outputs_map_eq id id related _ _ paired starts
  rintro state state' input _ here ⟨member, rfl⟩
  obtain ⟨events, results⟩ := steps state state' here input member
  exact ⟨events, results⟩

/-- **Runs that skip inputs.** The second machine reads only what is selected of the inputs,
and matches the first one there; on the others the first one is silent. What relates the two
may speak of the inputs still to come. -/
theorem run_filterMap {κ : Type*} {step : σ → ι → Exec ε σ} {step' : τ → κ → Exec ε τ}
    (select : ι → Option κ) (related : List ι → σ → τ → Prop)
    (kept : ∀ input rest state state' chosen, select input = some chosen →
      related (input :: rest) state state' →
        Matches (related rest) (step state input) (step' state' chosen))
    (skipped : ∀ input rest state state', select input = none →
      related (input :: rest) state state' →
        Matches (related rest) (step state input) (pure state'))
    {inputs : List ι} {start : σ} {start' : τ} (starts : related inputs start start') :
    Matches (related []) (run step start inputs) (run step' start' (inputs.filterMap select)) := by
  induction inputs generalizing start start' with
  | nil => exact .pure starts
  | cons input rest ih =>
      cases chosen : select input with
      | none =>
          rw [List.filterMap_cons_none chosen, ← pure_bind start' (run step' · _)]
          exact (skipped input rest start start' chosen starts).bind fun _ _ => ih
      | some chosen' =>
          rw [List.filterMap_cons_some chosen]
          exact (kept input rest start start' chosen' chosen starts).bind fun _ _ => ih

end Matches

/-! ## Computations that report less -/

/-- The first events are the second ones, with some of the minor ones left out. -/
structure Fewer (minor : ε → Bool) (events events' : List ε) : Prop where
  sublist : events.Sublist events'
  others : events.filter (!minor ·) = events'.filter (!minor ·)

namespace Fewer

variable {minor : ε → Bool} {events events' more more' : List ε}

/-- Nothing is left out. -/
protected theorem refl (events : List ε) : Fewer minor events events := ⟨.refl _, rfl⟩

/-- Something is left out of either part. -/
theorem append (fewer : Fewer minor events events') (fewer' : Fewer minor more more') :
    Fewer minor (events ++ more) (events' ++ more') where
  sublist := fewer.sublist.append fewer'.sublist
  others := by rw [List.filter_append, List.filter_append, fewer.others, fewer'.others]

/-- All of the first part is left out. -/
theorem skip (minors : ∀ event ∈ events, minor event = true) (fewer : Fewer minor more more') :
    Fewer minor more (events ++ more') where
  sublist := fewer.sublist.trans (List.sublist_append_right _ _)
  others := by
    have none : events.filter (!minor ·) = [] :=
      List.filter_eq_nil_iff.mpr fun event member => by simp [minors event member]
    rw [List.filter_append, none, List.nil_append, fewer.others]

/-- Events that are told as others, of which as many are minor. -/
theorem map {ε' : Type*} {minor' : ε' → Bool} {name : ε → ε'}
    (named : ∀ event, minor' (name event) = minor event) (fewer : Fewer minor events events') :
    Fewer minor' (events.map name) (events'.map name) where
  sublist := fewer.sublist.map name
  others := by
    have same : ((!minor' ·) ∘ name) = (!minor ·) := funext fun event => congrArg _ (named event)
    rw [List.filter_map, List.filter_map, same, fewer.others]

end Fewer

/-- Where the second computation returns, so does the first, a related value, having left out
minor events. -/
def Thins (minor : ε → Bool) (related : α → β → Prop) (first : Exec ε α) (second : Exec ε β) :
    Prop :=
  ∀ value', second.result = some value' → Fewer minor first.events second.events ∧
    ∃ value, first.result = some value ∧ related value value'

namespace Thins

variable {minor : ε → Bool} {related : α → β → Prop} {after : γ → δ → Prop} {first : Exec ε α}
  {second : Exec ε β}

/-- Returning related values. -/
protected theorem pure {value : α} {value' : β} (here : related value value') :
    Thins minor related (pure value) (pure value') := by
  intro _ returned
  cases returned
  exact ⟨.refl [], value, rfl, here⟩

/-- One part after the other; the first computation returns where the second does. -/
protected theorem bind {next : α → Exec ε γ} {next' : β → Exec ε δ}
    (thins : Thins minor related first second)
    (nexts : ∀ value value', related value value' →
      Thins minor after (next value) (next' value')) :
    Thins minor after (first >>= next) (second >>= next') := by
  intro last' returned
  obtain ⟨middle', reached', ending'⟩ := bind_result_eq_some.mp returned
  obtain ⟨fewer, middle, reached, here⟩ := thins middle' reached'
  obtain ⟨fewer', last, ending, there⟩ := nexts middle middle' here last' ending'
  rw [bind_of_result reached, bind_of_result reached']
  exact ⟨fewer.append fewer', last, ending, there⟩

/-- The second computation does something minor before. -/
theorem skip {outcome : Exec ε γ} {next' : γ → Exec ε β}
    (minors : ∀ event ∈ outcome.events, minor event = true)
    (nexts : ∀ value, Thins minor related first (next' value)) :
    Thins minor related first (outcome >>= next') := by
  intro last' returned
  obtain ⟨middle, reached, ending⟩ := bind_result_eq_some.mp returned
  obtain ⟨fewer, last⟩ := nexts middle last' ending
  rw [bind_of_result reached]
  exact ⟨fewer.skip minors, last⟩

/-- Events that are told as others, of which as many are minor. -/
theorem mapEvents {ε' : Type*} {minor' : ε' → Bool} {name : ε → ε'}
    (thins : Thins minor related first second)
    (named : ∀ event, minor' (name event) = minor event) :
    Thins minor' related (first.mapEvents name) (second.mapEvents name) :=
  fun value' returned => ⟨(thins value' returned).1.map named, (thins value' returned).2⟩

/-- Machines whose steps leave out minor events, on the same inputs. -/
protected theorem run {step : σ → ι → Exec ε σ} {step' : τ → ι → Exec ε τ} {related : σ → τ → Prop}
    (steps : ∀ state state' input, related state state' →
      Thins minor related (step state input) (step' state' input))
    (inputs : List ι) {start : σ} {start' : τ} (starts : related start start') :
    Thins minor related (run step start inputs) (run step' start' inputs) := by
  induction inputs generalizing start start' with
  | nil => exact .pure starts
  | cons input rest ih => exact (steps start start' input starts).bind fun _ _ => ih

end Thins

/-- A computation that matches leaves nothing out. -/
theorem Matches.thins (minor : ε → Bool) {related : α → β → Prop} {first : Exec ε α}
    {second : Exec ε β} (matched : Matches related first second) :
    Thins minor related first second := by
  intro value' returned
  have results := matched.result
  rw [returned] at results
  refine ⟨matched.events ▸ .refl _, ?_⟩
  cases reached : first.result with
  | none =>
      rw [reached] at results
      cases results
  | some value =>
      rw [reached] at results
      cases results with
      | some here => exact ⟨value, rfl, here⟩

/-- A computation leaves out nothing of itself. -/
protected theorem Thins.same (minor : ε → Bool) (outcome : Exec ε α) :
    Thins minor Eq outcome outcome :=
  (Matches.same outcome).thins minor

/-- Both return, or none does. -/
theorem Matches.isSome {related : α → β → Prop} {first : Exec ε α} {second : Exec ε β}
    (matched : Matches related first second) : first.result.isSome = second.result.isSome :=
  matched.mirrors.isSome

/-! ## Where runs lead -/

/-- Two relations, one after the other. -/
theorem rel_comp {left : α → β → Prop} {right : β → γ → Prop} {first : Option α} {second : Option β}
    {third : Option γ} (lefts : Option.Rel left first second)
    (rights : Option.Rel right second third) :
    Option.Rel (fun value value'' => ∃ value', left value value' ∧ right value' value'')
      first third := by
  cases lefts with
  | none =>
      cases rights
      exact .none
  | some here =>
      cases rights with
      | some there => exact .some ⟨_, here, there⟩

/-- **Where two runs in lockstep lead.** When one step from related states on related inputs
leaves related states, or aborts in both runs, so do the runs. -/
theorem run_rel {ε' ι' : Type*} {step : σ → ι → Exec ε σ} {step' : τ → ι' → Exec ε' τ}
    (related : σ → τ → Prop) (alike : ι → ι' → Prop)
    (lockstep : ∀ state state' left right, related state state' → alike left right →
      Option.Rel related (step state left).result (step' state' right).result)
    {lefts : List ι} {rights : List ι'} (inputs : List.Forall₂ alike lefts rights) {start : σ}
    {start' : τ} (starts : related start start') :
    Option.Rel related (run step start lefts).result (run step' start' rights).result := by
  induction inputs generalizing start start' with
  | nil => exact .some starts
  | @cons left right lefts rights here _ ih =>
      have continues := lockstep start start' left right starts here
      change Option.Rel related (step start left >>= _).result (step' start' right >>= _).result
      cases returned : (step start left).result with
      | none =>
          rw [returned] at continues
          cases returned' : (step' start' right).result with
          | none =>
              rw [bind_of_abort returned, bind_of_abort returned']
              exact .none
          | some next' =>
              rw [returned'] at continues
              cases continues
      | some next =>
          rw [returned] at continues
          cases returned' : (step' start' right).result with
          | none =>
              rw [returned'] at continues
              cases continues
          | some next' =>
              rw [returned'] at continues
              cases continues with
              | some nexts =>
                  rw [bind_of_result returned, bind_of_result returned']
                  exact ih nexts

end Exec
