import Devourer.Apps.Optparse
import Devourer.Foundation.Digits

/-! # How a command line is read

`Line` is the grammar of the command lines of a parser: the options that a line uses, in their
order and with their values, and what ends the line, the arguments left over or an error. How
an option is found does not depend on what the options before it did, so that parsing is
reading the line and then acting on its uses (`parseArgs_eq_line`).
-/

namespace Optparse

/-- A use of an option: the option, how it is named, and its value. -/
structure Use where
  option : Opt
  opt : Text
  value : Text
  deriving DecidableEq

/-- An argument that is no option. -/
def Plain (arg : Text) : Prop := arg.head? = some '-' → arg = ['-']

/-- What follows the name of a long option in its argument. -/
inductive Behind : Text → Option Text → Prop where
  | none : Behind [] Option.none
  | value (value : Text) : Behind ('=' :: value) (Option.some value)

/-- The value of a long option, which may be the next argument, and the arguments behind. -/
inductive LongValue (option : Opt) : Option Text → List Text → Text → List Text → Prop where
  | given (value : Text) (rest : List Text) : LongValue option (some value) rest value rest
  | flag (rest : List Text) : option.nargs ≠ 1 → LongValue option none rest [] rest
  | next (value : Text) (rest : List Text) : option.nargs = 1 →
      LongValue option none (value :: rest) value rest
  | missing : option.nargs = 1 → LongValue option none [] [] []

/-- The grammar of command lines. A cluster of short options is read as one option after the
other, and the text behind an option with a value is the value. -/
inductive Line (this : OptionParser) : List Text → List Use → Except Exit (List Text) → Prop where
  | nil : Line this [] [] (.ok [])
  | terminator (rest : List Text) : Line this (['-', '-'] :: rest) [] (.ok rest)
  | argument {arg rest uses ending} : Plain arg → this.interspersedArgs = true →
      Line this rest uses ending → Line this (arg :: rest) uses (ending.map (arg :: ·))
  | stop {arg} (rest : List Text) : Plain arg → this.interspersedArgs = false →
      Line this (arg :: rest) [] (.ok (arg :: rest))
  | flag {char option rest uses ending} : char ≠ '-' → this.lookupShortOpt [char] = .ok option →
      option.nargs ≠ 1 → Line this rest uses ending →
      Line this (['-', char] :: rest) (⟨option, ['-', char], []⟩ :: uses) ending
  | valued {char option rest uses ending} (value : Text) : char ≠ '-' →
      this.lookupShortOpt [char] = .ok option → option.nargs = 1 → Line this rest uses ending →
      Line this (['-', char] :: value :: rest) (⟨option, ['-', char], value⟩ :: uses) ending
  | cluster {char option more rest uses ending} : char ≠ '-' →
      this.lookupShortOpt [char] = .ok option → option.nargs ≠ 1 → more ≠ [] →
      Line this (['-', char] :: ('-' :: more) :: rest) uses ending →
      Line this (('-' :: char :: more) :: rest) uses ending
  | attached {char option value rest uses ending} : char ≠ '-' →
      this.lookupShortOpt [char] = .ok option → option.nargs = 1 → value ≠ [] →
      Line this (['-', char] :: value :: rest) uses ending →
      Line this (('-' :: char :: value) :: rest) uses ending
  | unknown {char exit} (more : Text) (rest : List Text) : char ≠ '-' →
      this.lookupShortOpt [char] = .error exit →
      Line this (('-' :: char :: more) :: rest) [] (.error exit)
  | missing {char option} : char ≠ '-' → this.lookupShortOpt [char] = .ok option →
      option.nargs = 1 → Line this [['-', char]] []
        (.error (.error (['-', char] ++ " option requires an argument".toList)))
  | long {name behind given option args value rest uses ending} : name ++ behind ≠ [] →
      '=' ∉ name → Behind behind given → this.lookupLongOpt name = .ok option →
      LongValue option given args value rest → (option.nargs = 1 → value ≠ []) →
      Line this rest uses ending →
      Line this (('-' :: '-' :: name ++ behind) :: args)
        (⟨option, '-' :: '-' :: name, value⟩ :: uses) ending
  | longUnknown {name behind given exit} (args : List Text) : name ++ behind ≠ [] → '=' ∉ name →
      Behind behind given → this.lookupLongOpt name = .error exit →
      Line this (('-' :: '-' :: name ++ behind) :: args) [] (.error exit)
  | longMissing {name behind given option args rest} : name ++ behind ≠ [] → '=' ∉ name →
      Behind behind given → this.lookupLongOpt name = .ok option →
      LongValue option given args [] rest → option.nargs = 1 →
      Line this (('-' :: '-' :: name ++ behind) :: args) []
        (.error (.error ('-' :: '-' :: name ++ " option requires an argument".toList)))

/-- Act on a use of an option. -/
def Use.act (use : Use) (values : Values) : Except Exit Values :=
  processOpt use.option use.opt use.value values

/-- Act on uses of options, one after the other. -/
def act (uses : List Use) (values : Values) : Except Exit Values :=
  uses.foldlM (fun values use => use.act values) values

namespace OptionParser

/-! ## One option -/

/-- The use that a short option with what stands behind it in its argument makes, and the
arguments that remain. -/
def shortUse (char : Char) (more : Text) (rest : List Text) (this : OptionParser) :
    Except Exit (Use × List Text) :=
  this.lookupShortOpt [char] >>= fun option =>
    if option.nargs = 1 then
      if more = [] then
        match rest with
        | [] => .error (.error (['-', char] ++ " option requires an argument".toList))
        | value :: rest => .ok (⟨option, ['-', char], value⟩, rest)
      else .ok (⟨option, ['-', char], more⟩, rest)
    else .ok (⟨option, ['-', char], []⟩, if more = [] then rest else ('-' :: more) :: rest)

/-- The use that a long option makes, and the arguments that remain. -/
def longUse (name behind : Text) (rest : List Text) (this : OptionParser) :
    Except Exit (Use × List Text) :=
  this.lookupLongOpt name >>= fun option =>
    let (value, rest) :=
      if option.nargs = 1 ∧ behind = [] then (rest.headD [], rest.tail) else (behind.drop 1, rest)
    if option.nargs = 1 ∧ value = [] then
      .error (.error ('-' :: '-' :: name ++ " option requires an argument".toList))
    else .ok (⟨option, '-' :: '-' :: name, value⟩, rest)

/-- The parser in its loop. -/
def within (this : OptionParser) (values : Values) (args leftover : List Text) : OptionParser :=
  { this with values := values, remaining := args, leftover := leftover }

variable {this next : OptionParser} {values : Values} {arg : Text} {rest leftover : List Text}

/-- Act on the use that was read. -/
def use (read : Except Exit (Use × List Text)) (values : Values) (leftover : List Text)
    (this : OptionParser) : Except Exit OptionParser :=
  read >>= fun read =>
    read.1.act values >>= fun values => pure (this.within values read.2 leftover)

/-- A short option is the use that it reads, done to the values. -/
theorem handleShortOpt_within (char : Char) (more : Text) :
    (this.within values (('-' :: char :: more) :: rest) leftover).handleShortOpt [char]
        ('-' :: char :: more) =
      this.use (this.shortUse char more rest) values leftover := by
  unfold handleShortOpt shortUse use
  change this.lookupShortOpt [char] >>= _ = _
  cases this.lookupShortOpt [char] with
  | error exit => rfl
  | ok option =>
      change (if option.nargs = 1 then _ else _) = (if option.nargs = 1 then _ else _) >>= _
      by_cases one : option.nargs = 1
      · rw [if_pos one, if_pos one]
        change (if more = [] then _ else _) = (if more = [] then _ else _) >>= _
        by_cases none : more = []
        · rw [if_pos none, if_pos none]
          cases rest with
          | nil => rfl
          | cons value rest => rfl
        · rw [if_neg none, if_neg none]
          rfl
      · rw [if_neg one, if_neg one]
        cases more with
        | nil => rfl
        | cons char more =>
            rw [if_pos (by rw [List.length_cons, List.length_cons, List.length_cons]; omega),
              if_neg (List.cons_ne_nil _ _)]
            rfl

/-- A long option is the use that it reads, done to the values. -/
theorem handleLongOpt_within (optstr : Text) :
    (this.within values (arg :: rest) leftover).handleLongOpt optstr =
      this.use (this.longUse (optstr.takeWhile (· ≠ '=')) (optstr.dropWhile (· ≠ '=')) rest) values
        leftover := by
  unfold handleLongOpt longUse use
  rw [List.span_eq_takeWhile_dropWhile]
  change this.lookupLongOpt _ >>= _ = _
  cases this.lookupLongOpt (optstr.takeWhile (· ≠ '=')) with
  | error exit => rfl
  | ok option =>
      simp only [bind, Except.bind]
      by_cases separate : option.nargs = 1 ∧ optstr.dropWhile (· ≠ '=') = []
      · rw [if_pos separate, if_pos separate]
        dsimp only
        by_cases missing : option.nargs = 1 ∧ rest.headD [] = []
        · rw [if_pos missing]
          exact if_pos missing
        · rw [if_neg missing]
          exact if_neg missing
      · rw [if_neg separate, if_neg separate]
        dsimp only
        by_cases missing : option.nargs = 1 ∧ (optstr.dropWhile (· ≠ '=')).drop 1 = []
        · rw [if_pos missing, if_pos missing]
          rfl
        · rw [if_neg missing, if_neg missing]
          rfl

/-! ## The loop -/

/-- Turns that the first argument may take. -/
theorem turns_cons (arg : Text) (rest : List Text) :
    turns (arg :: rest) = arg.length + 1 + turns rest := by
  unfold turns
  rw [List.map_cons, List.sum_cons]

/-- Fewer arguments take fewer turns. -/
theorem turns_tail_le (args : List Text) : turns args.tail ≤ turns args := by
  cases args with
  | nil => exact Nat.le_refl _
  | cons arg rest =>
      rw [turns_cons]
      exact Nat.le_add_left _ _

/-- A short option takes something off the arguments. -/
theorem turns_of_shortUse {char : Char} {more : Text} {read : Use × List Text}
    (returned : this.shortUse char more rest = .ok read) :
    turns read.2 < turns (('-' :: char :: more) :: rest) := by
  unfold shortUse at returned
  rw [turns_cons, List.length_cons, List.length_cons]
  cases found : this.lookupShortOpt [char] with
  | error exit =>
      rw [found] at returned
      cases returned
  | ok option =>
      rw [found] at returned
      change (if _ then _ else _) = _ at returned
      split at returned
      · split at returned
        · cases rest with
          | nil => cases returned
          | cons value rest =>
              cases returned
              rw [turns_cons]
              dsimp only
              omega
        · cases returned
          dsimp only
          omega
      · cases returned
        dsimp only
        split
        · omega
        · rw [turns_cons, List.length_cons]
          omega

/-- A long option reads no argument back. -/
theorem turns_of_longUse {name behind : Text} {read : Use × List Text}
    (returned : this.longUse name behind rest = .ok read) : turns read.2 ≤ turns rest := by
  unfold longUse at returned
  cases found : this.lookupLongOpt name with
  | error exit =>
      rw [found] at returned
      cases returned
  | ok option =>
      rw [found] at returned
      simp only [bind, Except.bind] at returned
      split at returned
      · split at returned
        · cases returned
        · cases returned
          exact turns_tail_le rest
      · split at returned
        · cases returned
        · cases returned
          exact Nat.le_refl _

/-- The kinds of arguments. -/
theorem kinds (arg : Text) : Plain arg ∨ arg = ['-', '-'] ∨
    (∃ optstr, optstr ≠ [] ∧ arg = '-' :: '-' :: optstr) ∨
    ∃ char more, char ≠ '-' ∧ arg = '-' :: char :: more := by
  match arg with
  | [] => exact .inl nofun
  | [first] => exact .inl fun dash => congrArg (· :: []) (Option.some.inj dash)
  | first :: second :: more =>
      by_cases dash : first = '-'
      · subst dash
        right
        by_cases long : second = '-'
        · subst long
          cases more with
          | nil => exact .inl rfl
          | cons char more => exact .inr (.inl ⟨char :: more, List.cons_ne_nil _ _, rfl⟩)
        · exact .inr (.inr ⟨second, more, long, rfl⟩)
      · exact .inl fun first => (dash (Option.some.inj first)).elim

/-- A turn on a long option. -/
theorem turn_long (fuel : ℕ) {optstr : Text} (some : optstr ≠ []) :
    parseLoop (fuel + 1) (this.within values (('-' :: '-' :: optstr) :: rest) leftover) =
      this.use (this.longUse (optstr.takeWhile (· ≠ '=')) (optstr.dropWhile (· ≠ '=')) rest) values
        leftover >>= parseLoop fuel := by
  have more : '-' :: '-' :: optstr ≠ "--".toList := fun same =>
    some (List.cons.inj (List.cons.inj same).2).2
  have turned : parseLoop (fuel + 1)
        (this.within values (('-' :: '-' :: optstr) :: rest) leftover) =
      (this.within values (('-' :: '-' :: optstr) :: rest) leftover).handleLongOpt optstr >>=
        parseLoop fuel :=
    (if_neg more).trans (if_pos rfl)
  rw [turned, handleLongOpt_within]

/-- A turn on a cluster of short options. -/
theorem turn_short (fuel : ℕ) {char : Char} (more : Text) (short : char ≠ '-') :
    parseLoop (fuel + 1) (this.within values (('-' :: char :: more) :: rest) leftover) =
      this.use (this.shortUse char more rest) values leftover >>= parseLoop fuel := by
  rw [← handleShortOpt_within]
  have terminator : '-' :: char :: more ≠ "--".toList := fun same =>
    short (List.cons.inj (List.cons.inj same).2).1
  have long : ('-' :: char :: more).take 2 ≠ "--".toList := fun same =>
    short (List.cons.inj (List.cons.inj same).2).1
  have dash : ('-' :: char :: more).take 1 = "-".toList ∧ 1 < ('-' :: char :: more).length :=
    ⟨rfl, by rw [List.length_cons, List.length_cons]; omega⟩
  exact (if_neg terminator).trans ((if_neg long).trans (if_pos dash))

/-- A turn on an argument that is no option. -/
theorem turn_plain (fuel : ℕ) (plain : Plain arg) :
    parseLoop (fuel + 1) (this.within values (arg :: rest) leftover) =
      if this.interspersedArgs = false then .ok (this.within values rest (leftover ++ [arg]))
      else parseLoop fuel (this.within values rest (leftover ++ [arg])) := by
  have terminator : arg ≠ "--".toList := by
    rintro rfl
    cases plain rfl
  have long : arg.take 2 ≠ "--".toList := by
    intro same
    cases arg with
    | nil => cases same
    | cons first more =>
        cases (List.cons.inj same).1
        cases plain rfl
        cases same
  have short : ¬ (arg.take 1 = "-".toList ∧ 1 < arg.length) := by
    rintro ⟨same, more⟩
    cases arg with
    | nil => cases same
    | cons first rest =>
        cases (List.cons.inj same).1
        cases plain rfl
        exact Nat.lt_irrefl _ more
  exact (if_neg terminator).trans ((if_neg long).trans (if_neg short))

/-- Use and go on, in two ways that agree on the parsers that the use can leave. -/
theorem use_bind_congr {read : Except Exit (Use × List Text)}
    {next next' : OptionParser → Except Exit OptionParser}
    (agree : ∀ found, read = .ok found → ∀ values,
      next (this.within values found.2 leftover) = next' (this.within values found.2 leftover)) :
    this.use read values leftover >>= next = this.use read values leftover >>= next' := by
  unfold use
  cases read with
  | error exit => rfl
  | ok found =>
      change (found.1.act values >>= _) >>= _ = (found.1.act values >>= _) >>= _
      cases found.1.act values with
      | error exit => rfl
      | ok values => exact agree found rfl values

/-- **The loop ends**: as many turns as there are characters and arguments are enough. -/
theorem parseLoop_of_turns {fuel fuel' : ℕ} (args : List Text) (enough : turns args ≤ fuel)
    (enough' : turns args ≤ fuel') :
    parseLoop fuel (this.within values args leftover) =
      parseLoop fuel' (this.within values args leftover) := by
  induction fuel generalizing fuel' values args leftover with
  | zero =>
      cases args with
      | nil =>
          cases fuel' with
          | zero => rfl
          | succ fuel' => rfl
      | cons arg rest =>
          rw [turns_cons] at enough
          omega
  | succ fuel ih =>
      cases args with
      | nil =>
          cases fuel' with
          | zero => rfl
          | succ fuel' => rfl
      | cons arg rest =>
          cases fuel' with
          | zero =>
              rw [turns_cons] at enough'
              omega
          | succ fuel' =>
              rw [turns_cons] at enough enough'
              rcases kinds arg with plain | rfl | ⟨optstr, some, rfl⟩ | ⟨char, more, short, rfl⟩
              · rw [turn_plain fuel plain, turn_plain fuel' plain]
                split
                · rfl
                · exact ih rest (by omega) (by omega)
              · rfl
              · rw [turn_long fuel some, turn_long fuel' some]
                apply use_bind_congr
                intro found read values
                have fewer := turns_of_longUse read
                exact ih found.2 (by omega) (by omega)
              · rw [turn_short fuel more short, turn_short fuel' more short]
                apply use_bind_congr
                intro found read values
                have fewer := turns_of_shortUse read
                rw [turns_cons] at fewer
                exact ih found.2 (by omega) (by omega)

/-- The loop, with as many turns as it takes. -/
def loop (this : OptionParser) : Except Exit OptionParser := parseLoop (turns this.remaining) this

/-- More turns than it takes make no difference. -/
theorem loop_eq {fuel : ℕ} {args : List Text} (enough : turns args ≤ fuel) :
    parseLoop fuel (this.within values args leftover) = (this.within values args leftover).loop :=
  parseLoop_of_turns args enough (Nat.le_refl _)

/-- Two dashes end the loop. -/
theorem loop_terminator : (this.within values (['-', '-'] :: rest) leftover).loop =
    .ok (this.within values rest leftover) := by
  rw [← loop_eq (Nat.le_succ _)]
  rfl

/-- A long option, and the rest of the line. -/
theorem loop_long {optstr : Text} (some : optstr ≠ []) :
    (this.within values (('-' :: '-' :: optstr) :: rest) leftover).loop =
      this.use (this.longUse (optstr.takeWhile (· ≠ '=')) (optstr.dropWhile (· ≠ '=')) rest) values
        leftover >>= loop := by
  rw [← loop_eq (Nat.le_succ _), turn_long _ some]
  apply use_bind_congr
  intro found read values
  have fewer := turns_of_longUse read
  exact loop_eq (by rw [turns_cons]; omega)

/-- The first option of a cluster, and the rest of the line. -/
theorem loop_short {char : Char} (more : Text) (short : char ≠ '-') :
    (this.within values (('-' :: char :: more) :: rest) leftover).loop =
      this.use (this.shortUse char more rest) values leftover >>= loop := by
  rw [← loop_eq (Nat.le_succ _), turn_short _ more short]
  apply use_bind_congr
  intro found read values
  exact loop_eq (Nat.le_of_lt (turns_of_shortUse read))

/-- An argument that is no option, which may end the loop. -/
theorem loop_plain (plain : Plain arg) :
    (this.within values (arg :: rest) leftover).loop =
      if this.interspersedArgs = false then .ok (this.within values rest (leftover ++ [arg]))
      else (this.within values rest (leftover ++ [arg])).loop := by
  rw [← loop_eq (Nat.le_succ _), turn_plain _ plain]
  congr 1
  exact loop_eq (by rw [turns_cons]; omega)

/-! ## Reading and acting -/

variable {name behind value : Text} {given : Option Text} {option : Opt} {args : List Text}

/-- A short option that is not known is an error. -/
theorem shortUse_of_error {char : Char} {exit : Exit} (more : Text)
    (found : this.lookupShortOpt [char] = .error exit) :
    this.shortUse char more rest = .error exit := by
  unfold shortUse
  rw [found]
  rfl

/-- A short option takes no value. -/
theorem shortUse_of_flag {char : Char} (more : Text)
    (found : this.lookupShortOpt [char] = .ok option) (flag : option.nargs ≠ 1) :
    this.shortUse char more rest =
      .ok (⟨option, ['-', char], []⟩, if more = [] then rest else ('-' :: more) :: rest) := by
  unfold shortUse
  rw [found]
  exact if_neg flag

/-- A short option takes the text behind it. -/
theorem shortUse_of_attached {char : Char} (found : this.lookupShortOpt [char] = .ok option)
    (one : option.nargs = 1) (some : value ≠ []) :
    this.shortUse char value rest = .ok (⟨option, ['-', char], value⟩, rest) := by
  unfold shortUse
  rw [found]
  exact (if_pos one).trans (if_neg some)

/-- A short option takes the next argument. -/
theorem shortUse_of_valued {char : Char} (found : this.lookupShortOpt [char] = .ok option)
    (one : option.nargs = 1) :
    this.shortUse char [] (value :: rest) = .ok (⟨option, ['-', char], value⟩, rest) := by
  unfold shortUse
  rw [found]
  exact (if_pos one).trans (if_pos rfl)

/-- At the end of the line a value is missing. -/
theorem shortUse_of_missing {char : Char} (found : this.lookupShortOpt [char] = .ok option)
    (one : option.nargs = 1) : this.shortUse char [] [] =
      .error (.error (['-', char] ++ " option requires an argument".toList)) := by
  unfold shortUse
  rw [found]
  exact (if_pos one).trans (if_pos rfl)

/-- A long option that is not known, or ambiguous, is an error. -/
theorem longUse_of_error {exit : Exit} (found : this.lookupLongOpt name = .error exit) :
    this.longUse name behind args = .error exit := by
  unfold longUse
  rw [found]
  rfl

/-- A long option takes what is given, or the next argument. -/
theorem longUse_of_value (found : this.lookupLongOpt name = .ok option)
    (after : Behind behind given) (takes : LongValue option given args value rest) :
    this.longUse name behind args =
      if option.nargs = 1 ∧ value = [] then
        .error (.error ('-' :: '-' :: name ++ " option requires an argument".toList))
      else .ok (⟨option, '-' :: '-' :: name, value⟩, rest) := by
  unfold longUse
  rw [found]
  simp only [bind, Except.bind]
  cases takes with
  | given value rest =>
      cases after
      have given : ¬ (option.nargs = 1 ∧ '=' :: value = []) := fun both =>
        List.cons_ne_nil _ _ both.2
      rw [if_neg given]
      rfl
  | flag rest flag =>
      cases after
      have valueless : ¬ (option.nargs = 1 ∧ ([] : Text) = []) := fun both => flag both.1
      rw [if_neg valueless]
      rfl
  | next value rest one =>
      cases after
      have next : option.nargs = 1 ∧ ([] : Text) = [] := ⟨one, rfl⟩
      rw [if_pos next]
      rfl
  | missing one =>
      cases after
      have next : option.nargs = 1 ∧ ([] : Text) = [] := ⟨one, rfl⟩
      rw [if_pos next]
      rfl

/-- The name of a long option ends before the first equals sign. -/
theorem split_long (plain : '=' ∉ name) (after : Behind behind given) :
    (name ++ behind).takeWhile (· ≠ '=') = name ∧
      (name ++ behind).dropWhile (· ≠ '=') = behind := by
  have taken : ∀ char ∈ name, decide (char ≠ '=') = true := by
    intro char member
    apply decide_eq_true
    rintro rfl
    exact plain member
  have stops : ∀ char ∈ behind.head?, ¬ decide (char ≠ '=') = true := by
    intro char first
    cases after with
    | none => cases first
    | value value =>
        cases first
        exact of_decide_eq_false rfl
  exact ⟨Digits.takeWhile_append taken stops, Digits.dropWhile_append taken stops⟩

/-- A long option has a name, and perhaps a value behind an equals sign. -/
theorem exists_split (optstr : Text) : ∃ name behind given, optstr = name ++ behind ∧ '=' ∉ name ∧
    Behind behind given := by
  have stops := Digits.not_head_dropWhile (· ≠ '=') optstr
  refine ⟨optstr.takeWhile (· ≠ '='), optstr.dropWhile (· ≠ '='), ?_⟩
  have plain : '=' ∉ optstr.takeWhile (· ≠ '=') := by
    intro member
    have taken := List.mem_takeWhile_imp member
    exact of_decide_eq_true taken rfl
  have same := (List.takeWhile_append_dropWhile (p := (· ≠ '=')) (l := optstr)).symm
  generalize optstr.dropWhile (· ≠ '=') = behind at stops same ⊢
  cases behind with
  | nil => exact ⟨none, same, plain, .none⟩
  | cons char value =>
      have equals : char = '=' := by simpa using stops char rfl
      subst equals
      exact ⟨some value, same, plain, .value value⟩

/-- A long option reads its value in one of these ways. -/
theorem exists_longValue (option : Opt) (given : Option Text) (args : List Text) :
    ∃ value rest, LongValue option given args value rest := by
  cases given with
  | some value => exact ⟨value, args, .given value args⟩
  | none =>
      by_cases one : option.nargs = 1
      · cases args with
        | nil => exact ⟨[], [], .missing one⟩
        | cons value rest => exact ⟨value, rest, .next value rest one⟩
      · exact ⟨[], args, .flag args one⟩

/-- The loop acts on a use and goes on. -/
theorem loop_use (use : Use) : (this.use (.ok (use, rest)) values leftover >>= loop).map drain =
    use.act values >>= fun values => (this.within values rest leftover).loop.map drain := by
  change ((use.act values >>= _) >>= _).map _ = _
  cases use.act values with
  | error exit => rfl
  | ok values => rfl

/-- The first use acts first. -/
theorem act_cons (use : Use) (uses : List Use) (values : Values) :
    act (use :: uses) values = use.act values >>= act uses := List.foldlM_cons ..

/-- **Reading and acting.** The loop acts on the uses of the line, unless an error ends it. -/
theorem loop_of_line {uses : List Use} {ending : Except Exit (List Text)}
    (line : Line this args uses ending) (values : Values) (leftover : List Text) :
    (this.within values args leftover).loop.map drain =
      act uses values >>= fun values =>
        ending.map fun left => this.within values [] (leftover ++ left) := by
  induction line generalizing values leftover with
  | nil => rfl
  | terminator rest =>
      rw [loop_terminator]
      rfl
  | @argument arg rest uses ending plain interspersed line ih =>
      rw [loop_plain plain, if_neg (Bool.not_eq_false _ ▸ interspersed), ih]
      congr 1
      funext values
      cases ending with
      | error exit => rfl
      | ok left =>
          exact congrArg (fun left => Except.ok (this.within values [] left))
            (List.append_assoc ..)
  | stop rest plain interspersed =>
      rw [loop_plain plain, if_pos interspersed]
      exact congrArg (fun left => Except.ok (this.within values [] left)) (List.append_assoc ..)
  | flag short found flag line ih =>
      rw [loop_short [] short, shortUse_of_flag [] found flag, if_pos rfl, loop_use, act_cons,
        bind_assoc]
      exact congrArg _ (funext fun values => ih values leftover)
  | valued value short found one line ih =>
      rw [loop_short [] short, shortUse_of_valued found one, loop_use, act_cons, bind_assoc]
      exact congrArg _ (funext fun values => ih values leftover)
  | cluster short found flag some line ih =>
      rw [loop_short _ short, shortUse_of_flag _ found flag, if_neg some, ← ih,
        loop_short [] short, shortUse_of_flag [] found flag, if_pos rfl]
  | attached short found one some line ih =>
      rw [loop_short _ short, shortUse_of_attached found one some, ← ih, loop_short [] short,
        shortUse_of_valued found one]
  | unknown more rest short found =>
      rw [loop_short more short, shortUse_of_error more found]
      rfl
  | missing short found one =>
      rw [loop_short [] short, shortUse_of_missing found one]
      rfl
  | long some plain after found takes given line ih =>
      obtain ⟨named, valued⟩ := split_long plain after
      rw [List.cons_append, List.cons_append, loop_long some, named, valued,
        longUse_of_value found after takes, if_neg fun both => given both.1 both.2, loop_use,
        act_cons, bind_assoc]
      exact congrArg _ (funext fun values => ih values leftover)
  | longUnknown args some plain after found =>
      obtain ⟨named, valued⟩ := split_long plain after
      rw [List.cons_append, List.cons_append, loop_long some, named, valued, longUse_of_error found]
      rfl
  | longMissing some plain after found takes one =>
      obtain ⟨named, valued⟩ := split_long plain after
      rw [List.cons_append, List.cons_append, loop_long some, named, valued,
        longUse_of_value found after takes, if_pos ⟨one, rfl⟩]
      rfl

/-- **Every line is read.** -/
theorem exists_line (this : OptionParser) (args : List Text) :
    ∃ uses ending, Line this args uses ending := by
  induction hn : turns args using Nat.strong_induction_on generalizing args with
  | _ n ih =>
  cases args with
  | nil => exact ⟨[], _, .nil⟩
  | cons arg rest =>
      subst hn
      have shorter : ∀ {args : List Text}, turns args < turns (arg :: rest) →
          ∃ uses ending, Line this args uses ending := fun fewer => ih _ fewer _ rfl
      have tail : turns rest < turns (arg :: rest) := by
        rw [turns_cons]
        omega
      rcases kinds arg with plain | rfl | ⟨optstr, some, rfl⟩ | ⟨char, more, short, rfl⟩
      · cases interspersed : this.interspersedArgs with
        | false => exact ⟨[], _, .stop rest plain interspersed⟩
        | true =>
            obtain ⟨uses, ending, line⟩ := shorter tail
            exact ⟨uses, _, .argument plain interspersed line⟩
      · exact ⟨[], _, .terminator rest⟩
      · obtain ⟨name, behind, given, rfl, plain, after⟩ := exists_split optstr
        cases found : this.lookupLongOpt name with
        | error exit => exact ⟨[], _, .longUnknown rest some plain after found⟩
        | ok option =>
            obtain ⟨value, args, takes⟩ := exists_longValue option given rest
            by_cases missing : option.nargs = 1 ∧ value = []
            · obtain ⟨one, rfl⟩ := missing
              exact ⟨[], _, .longMissing some plain after found takes one⟩
            · have fewer : turns args ≤ turns rest := by
                cases takes with
                | given _ _ | flag _ _ => exact Nat.le_refl _
                | next value _ _ => exact turns_tail_le (value :: args)
                | missing _ => exact Nat.le_refl _
              obtain ⟨uses, ending, line⟩ := shorter (Nat.lt_of_le_of_lt fewer tail)
              exact ⟨_, ending, .long some plain after found takes
                (fun one none => missing ⟨one, none⟩) line⟩
      · cases found : this.lookupShortOpt [char] with
        | error exit => exact ⟨[], _, .unknown more rest short found⟩
        | ok option =>
            by_cases one : option.nargs = 1
            · by_cases none : more = []
              · subst none
                cases rest with
                | nil => exact ⟨[], _, .missing short found one⟩
                | cons value rest =>
                    obtain ⟨uses, ending, line⟩ :=
                      shorter (Nat.lt_of_le_of_lt (turns_tail_le (value :: rest)) tail)
                    exact ⟨_, ending, .valued value short found one line⟩
              · obtain ⟨uses, ending, line⟩ := shorter tail
                exact ⟨_, ending,
                  .attached short found one none (.valued more short found one line)⟩
            · by_cases none : more = []
              · subst none
                obtain ⟨uses, ending, line⟩ := shorter tail
                exact ⟨_, ending, .flag short found one line⟩
              · have fewer :
                    turns (('-' :: more) :: rest) < turns (('-' :: char :: more) :: rest) := by
                  rw [turns_cons, turns_cons, List.length_cons, List.length_cons, List.length_cons]
                  omega
                obtain ⟨uses, ending, line⟩ := shorter fewer
                exact ⟨_, ending, .cluster short found one none (.flag short found one line)⟩

/-- The options that were added. -/
def Knows (this : OptionParser) (option : Opt) : Prop :=
  (∃ name, this.optmapS.lookup name = some option) ∨ ∃ name, this.optmapL.lookup name = some option

/-- A short option that is found was entered. -/
theorem knows_of_short {name : Text} (found : this.lookupShortOpt name = .ok option) :
    this.Knows option := by
  unfold lookupShortOpt at found
  split at found
  · cases found
  · rename_i entered
    cases found
    exact .inl ⟨name, entered⟩

/-- A long option that is found was entered. -/
theorem knows_of_long (found : this.lookupLongOpt name = .ok option) : this.Knows option := by
  unfold lookupLongOpt at found
  split at found
  · cases found
  · split at found
    · cases found
    · rename_i name' _ _ entered
      cases found
      exact .inr ⟨_, entered⟩
  · cases found

/-- The options that a line uses were added. -/
theorem knows_of_line {uses : List Use} {ending : Except Exit (List Text)}
    (line : Line this args uses ending) : ∀ use ∈ uses, this.Knows use.option := by
  induction line with
  | nil | terminator _ | stop _ _ _ | unknown _ _ _ _ | missing _ _ _ | longUnknown _ _ _ _ _
  | longMissing _ _ _ _ _ _ => exact List.forall_mem_nil _
  | argument _ _ _ ih | cluster _ _ _ _ _ ih | attached _ _ _ _ _ ih => exact ih
  | flag _ found _ _ ih | valued _ _ found _ _ ih =>
      exact List.forall_mem_cons.mpr ⟨knows_of_short found, ih⟩
  | long _ _ _ found _ _ _ ih => exact List.forall_mem_cons.mpr ⟨knows_of_long found, ih⟩

/-- The parser when the values and the arguments left over are known. -/
def finish (values : Values) (leftover : List Text) (this : OptionParser) : OptionParser :=
  (this.within values [] leftover).fillDefaults

/-- What the loop works on. -/
def held (this : OptionParser) : Values × List Text × List Text :=
  (this.values, this.remaining, this.leftover)

/-- Entering an option leaves the values and the arguments. -/
theorem held_enter (option : Opt) (name : Text) : (this.enter option name).held = this.held := by
  unfold enter
  split
  · rfl
  · rfl

/-- Options are added without a change to what the loop works on. -/
theorem held_addOption (names : List Text) (setters : Opt → Opt) :
    (this.addOption names setters).spliceLast.held = this.held := by
  have entered : ∀ (option : Opt) (this : OptionParser),
      (names.foldl (enter option) this).held = this.held := by
    intro option
    induction names with
    | nil => exact fun _ => rfl
    | cons name names ih => exact fun this => (ih _).trans (held_enter option name)
  exact entered _ _

/-- Before the loops the parser holds the arguments of the line. -/
theorem held_prepare (args : List Text) (this : OptionParser) :
    (this.prepare args).held = (this.values, args, this.leftover) := by
  unfold prepare addHelp
  rw [apply_ite held, held_addOption, ite_self]
  unfold addVersion
  rw [apply_ite held, held_addOption, ite_self]
  rfl

/-- A parser holds what it holds. -/
theorem within_held (this : OptionParser) :
    this.within this.held.1 this.held.2.1 this.held.2.2 = this := rfl

/-- A line in the grammar is parsed into its uses and its ending. -/
theorem parseArgs_of_line {uses : List Use} {ending : Except Exit (List Text)}
    (line : Line (this.prepare args) args uses ending) :
    this.parseArgs args = act uses this.values >>= fun values =>
      ending.map fun left => (this.prepare args).finish values (this.leftover ++ left) := by
  have held := held_prepare args this
  have parsed : this.parseArgs args =
      ((this.prepare args).loop.map drain).map fillDefaults := by
    unfold parseArgs
    change (this.prepare args).loop >>= _ = _
    cases (this.prepare args).loop with
    | error exit => rfl
    | ok next => rfl
  rw [parsed, ← within_held (this.prepare args), held, loop_of_line line]
  cases act uses this.values with
  | error exit => rfl
  | ok values =>
      cases ending with
      | error exit => rfl
      | ok left => rfl

/-- **`parse_args` reads the command line and acts on it.** Every sequence of arguments is a line
of the grammar, and for every reading of it the parser acts on its uses, one after the other,
and then takes what is left over, or fails as the line does. -/
theorem parseArgs_eq_line (this : OptionParser) (args : List Text) :
    (∃ uses ending, Line (this.prepare args) args uses ending) ∧
      ∀ uses ending, Line (this.prepare args) args uses ending →
        this.parseArgs args = act uses this.values >>= fun values =>
          ending.map fun left => (this.prepare args).finish values (this.leftover ++ left) :=
  ⟨exists_line _ args, fun _ _ => parseArgs_of_line⟩

end OptionParser

end Optparse
