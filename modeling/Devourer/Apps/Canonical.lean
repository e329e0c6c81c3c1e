import Devourer.Apps.CommandLine

/-! # How a command line is written

What a command line can ask for are the sequences of `Legal` uses, in any order and number,
with any arguments left over. Each can be written in one way, with long options given their
values behind `=` and the arguments behind `--`, and every command line without an error has the
effect of the one that is written so (`parseArgs_eq_write`).
-/

namespace Optparse

/-- A use that a command line can make. A flag has a value in a long option only, and there no
value is empty that is needed. -/
inductive Use.Legal (this : OptionParser) : Use → Prop where
  | short {char : Char} {option : Opt} (value : Text) : char ≠ '-' →
      this.lookupShortOpt [char] = .ok option → (option.nargs ≠ 1 → value = []) →
      Legal this ⟨option, ['-', char], value⟩
  | long {name : Text} {option : Opt} (value : Text) : '=' ∉ name →
      this.lookupLongOpt name = .ok option → (option.nargs = 1 → value ≠ []) →
      Legal this ⟨option, '-' :: '-' :: name, value⟩

/-- The arguments for a use. -/
def Use.write (use : Use) : List Text :=
  if use.opt.take 2 = ['-', '-'] then [use.opt ++ '=' :: use.value]
  else if use.option.nargs = 1 then [use.opt, use.value]
  else [use.opt]

/-- The command line for uses, with arguments behind. -/
def write (uses : List Use) (left : List Text) : List Text :=
  uses.flatMap Use.write ++ ['-', '-'] :: left

variable {this : OptionParser} {args rest left : List Text} {use : Use} {uses : List Use}
  {ending : Except Exit (List Text)}

/-- What is written is read. -/
theorem Use.Legal.write (legal : use.Legal this) (line : Line this rest uses ending) :
    Line this (use.write ++ rest) (use :: uses) ending := by
  cases legal with
  | @short char option value dash found flag =>
      have short : ¬ ['-', char] = ['-', '-'] := fun same =>
        dash (List.cons.inj (List.cons.inj same).2).1
      unfold Use.write
      rw [List.take_of_length_le (Nat.le_refl 2), if_neg short]
      by_cases valued : option.nargs = 1
      · rw [if_pos valued]
        exact .valued value dash found valued line
      · rw [if_neg valued]
        cases flag valued
        exact .flag dash found valued line
  | @long name option value plain found some =>
      have long : ('-' :: '-' :: name).take 2 = ['-', '-'] := rfl
      unfold Use.write
      rw [if_pos long]
      exact .long (List.append_ne_nil_of_right_ne_nil _ (List.cons_ne_nil _ _)) plain
        (.value value) found (.given value rest) some line

theorem line_write (legal : ∀ use ∈ uses, use.Legal this) (left : List Text) :
    Line this (write uses left) uses (.ok left) := by
  unfold write
  induction uses with
  | nil => exact .terminator left
  | cons use uses ih =>
      rw [List.forall_mem_cons] at legal
      rw [List.flatMap_cons, List.append_assoc]
      exact legal.1.write (ih legal.2)

/-- What is read is legal. -/
theorem legal_of_line (line : Line this args uses ending) : ∀ use ∈ uses, use.Legal this := by
  induction line with
  | nil | terminator _ | stop _ _ _ | unknown _ _ _ _ | missing _ _ _ | longUnknown _ _ _ _ _
  | longMissing _ _ _ _ _ _ => exact List.forall_mem_nil _
  | argument _ _ _ ih | cluster _ _ _ _ _ ih | attached _ _ _ _ _ ih => exact ih
  | flag dash found _ _ ih =>
      exact List.forall_mem_cons.mpr ⟨.short [] dash found fun _ => rfl, ih⟩
  | valued value dash found one _ ih =>
      exact List.forall_mem_cons.mpr ⟨.short value dash found fun not => (not one).elim, ih⟩
  | long _ plain _ found _ some _ ih =>
      exact List.forall_mem_cons.mpr ⟨.long _ plain found some, ih⟩

namespace OptionParser

/-- Options are added without a look at the arguments. -/
theorem within_addOption (values : Values) (names : List Text) (setters : Opt → Opt)
    (this : OptionParser) : (this.within values args left).addOption names setters =
      (this.addOption names setters).within values args left := by
  have entered : ∀ (option : Opt) (this : OptionParser),
      names.foldl (enter option) (this.within values args left) =
        (names.foldl (enter option) this).within values args left := by
    intro option
    induction names with
    | nil => exact fun _ => rfl
    | cons name names ih =>
        intro this
        have one : (this.within values args left).enter option name =
            (this.enter option name).within values args left := by
          unfold enter
          split
          · rfl
          · rfl
        rw [List.foldl_cons, List.foldl_cons, one, ih]
  exact entered _ { this with opts := _ }

theorem prepare_eq_within (args : List Text) (this : OptionParser) :
    this.prepare args = this.addVersion.addHelp.within this.values args this.leftover := by
  have version : ∀ this : OptionParser, ∀ values args left,
      (this.within values args left).addVersion = this.addVersion.within values args left := by
    intro this values args left
    unfold addVersion
    rw [within_addOption, apply_ite (within · values args left)]
    rfl
  have help : ∀ this : OptionParser, ∀ values args left,
      (this.within values args left).addHelp = this.addHelp.within values args left := by
    intro this values args left
    unfold addHelp
    rw [within_addOption, apply_ite (within · values args left)]
    rfl
  change ((this.within this.values args this.leftover).addVersion).addHelp = _
  rw [version, help]

/-- Which uses are legal does not depend on the arguments. -/
theorem legal_prepare (args args' : List Text) (legal : use.Legal (this.prepare args)) :
    use.Legal (this.prepare args') := by
  rw [prepare_eq_within] at legal ⊢
  cases legal with
  | short value dash found flag => exact .short value dash found flag
  | long value plain found some => exact .long value plain found some

theorem finish_prepare (values : Values) (args args' : List Text) :
    (this.prepare args).finish values left = (this.prepare args').finish values left := by
  rw [prepare_eq_within, prepare_eq_within]
  rfl

/-- **Every command line is written in one way.** Exactly the sequences of legal uses can be asked
for, with whatever arguments left over, and a command line that asks for some has the effect of
the one that is written for them. -/
theorem parseArgs_eq_write (this : OptionParser) (uses : List Use) (left : List Text) :
    ((∃ args, Line (this.prepare args) args uses (.ok left)) ↔
        ∀ use ∈ uses, use.Legal (this.prepare [])) ∧
      ∀ args, Line (this.prepare args) args uses (.ok left) →
        this.parseArgs args = this.parseArgs (write uses left) := by
  have written : (∀ use ∈ uses, use.Legal (this.prepare [])) →
      Line (this.prepare (write uses left)) (write uses left) uses (.ok left) :=
    fun legal => line_write (fun use member => legal_prepare [] _ (legal use member)) left
  have legal : ∀ args, Line (this.prepare args) args uses (.ok left) →
      ∀ use ∈ uses, use.Legal (this.prepare []) :=
    fun args line use member => legal_prepare args [] (legal_of_line line use member)
  refine ⟨⟨fun ⟨args, line⟩ => legal args line, fun legal => ⟨_, written legal⟩⟩, ?_⟩
  intro args line
  rw [parseArgs_of_line line, parseArgs_of_line (written (legal args line))]
  simp only [Except.map, finish_prepare _ args (write uses left)]

/-- A parser with a flag and a number. -/
def sampleParser : OptionParser :=
  (OptionParser.new.addOption ["-v".toList] (·.setAction .storeTrue)).addOption ["-n".toList] id

/-- A cluster is taken apart, and what is left over goes behind. -/
theorem parseArgs_eq_write_sample :
    sampleParser.parseArgs ["-vn5".toList, "x".toList] =
      sampleParser.parseArgs ["-v".toList, "-n".toList, "5".toList, "--".toList, "x".toList] := by
  let uses : List Use :=
    [⟨{ Opt.new with dest := "v".toList }.setAction .storeTrue, "-v".toList, []⟩,
      ⟨{ Opt.new with dest := "n".toList }, "-n".toList, "5".toList⟩]
  have plain : Plain "x".toList := fun dash => absurd dash (by decide)
  have line : Line (sampleParser.prepare ["-vn5".toList, "x".toList])
      ["-vn5".toList, "x".toList] uses (.ok ["x".toList]) := by
    apply Line.cluster (by decide) rfl (by decide) (List.cons_ne_nil _ _)
    apply Line.flag (by decide) rfl (by decide)
    apply Line.attached (by decide) rfl rfl (List.cons_ne_nil _ _)
    exact .valued _ (by decide) rfl rfl (.argument plain rfl .nil)
  have written : write uses ["x".toList] =
      ["-v".toList, "-n".toList, "5".toList, "--".toList, "x".toList] := by decide
  rw [← written]
  exact (parseArgs_eq_write sampleParser uses ["x".toList]).2 _ line

end OptionParser

end Optparse
