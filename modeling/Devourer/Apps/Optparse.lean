import Devourer.Driver
import Mathlib.Data.Char
import Mathlib.Data.Finset.Insert
import Mathlib.Data.List.AList
import Mathlib.Data.List.Lex
import Mathlib.Data.List.Sort

/-! # The option parser

`OptionParser` takes the arguments of a command line one after the other. A cluster of short
options is taken apart from its front, and what remains of it is put back before the other
arguments. An option that is found does what its action says to the `Values`; an error, the
help and the version end the program. What these print besides the message of an error is not
part of the model, and neither are functions to call back: `callback` is an action whose function
is not set, or a name that is no action, and does nothing.
-/

namespace Optparse

open Devourer

/-- `std::string`; a character stands for a byte. -/
abbrev Text := List Char

inductive Action where
  | store
  | storeConst
  | storeTrue
  | storeFalse
  | append
  | appendConst
  | count
  | help
  | version
  | callback
  deriving DecidableEq

/-- `type`; values are taken as they are for `string` and for any name that is not here. -/
inductive OptType where
  | string
  | int
  | long
  | float
  | double
  | choice
  | complex
  deriving DecidableEq

/-- How the parser ends the program; in `undefined` a counter overflows, or there is nothing to
count from. -/
inductive Exit where
  | help
  | version
  | error (msg : Text)
  | undefined
  deriving DecidableEq

/-! ## Texts -/

def strJoin (sep : Text) (texts : List Text) : Text := (texts.intersperse sep).flatten

/-- `std::istringstream(text) >> i` for a signed integer of the width: the value that `i` gets,
and whether the extraction succeeds. -/
def extract (width : ℕ) (text : Text) : ℤ × Bool :=
  let body := text.dropWhile isSpace
  let negative := body.head? = some '-'
  let body := if body.head? = some '-' ∨ body.head? = some '+' then body.tail else body
  let digits := body.takeWhile fun char => digitValue char < 10
  let value := digits.foldl (fun value digit => 10 * value + digitValue digit) 0
  let value : ℤ := if negative then -value else value
  if digits = [] then (0, false)
  else if value < -2 ^ (width - 1) then (-2 ^ (width - 1), false)
  else if 2 ^ (width - 1) ≤ value then (2 ^ (width - 1) - 1, false)
  else (value, true)

/-- `str_inc`, unless `i` is not assigned, as for a blank text, or `i+1` overflows. -/
def strInc (text : Text) : Option Text :=
  let value := if text ≠ [] then text else "0".toList
  let i := (extract 32 value).1
  if value.dropWhile isSpace ≠ [] ∧ i + 1 < 2 ^ 31 then some (toString (i + 1)).toList else none

/-- The digits at the front of a text, and what follows them. -/
def digits (text : Text) : Text × Text := text.span fun char => digitValue char < 10

/-- Skip a sign. -/
def unsigned (text : Text) : Text :=
  if text.head? = some '-' ∨ text.head? = some '+' then text.tail else text

/-- A decimal number is not too large for a `double`, also when it is rounded. -/
def fitsDouble (digits : Text) (exponent : ℤ) : Bool :=
  let value := digits.foldl (fun value digit => 10 * value + digitValue digit) 0
  let bound := 2 ^ 1024 - 2 ^ 970
  if 0 ≤ exponent then value = 0 ∨ exponent < 309 ∧ value * 10 ^ exponent.toNat < bound
  else value < bound * 10 ^ min (-exponent).toNat digits.length

/-- `stream >> t` for a `double`: what is left of the stream, when the extraction succeeds. -/
def extractDouble (text : Text) : Option Text := do
  let (whole, rest) := digits (unsigned (text.dropWhile isSpace))
  let (fraction, rest) := if rest.head? = some '.' then digits rest.tail else ([], rest)
  if whole ++ fraction = [] then none
  else
    let marked := rest.head? = some 'e' ∨ rest.head? = some 'E'
    let (power, behind) := if marked then digits (unsigned rest.tail) else (['0'], rest)
    let size : ℤ := power.foldl (fun value digit => 10 * value + digitValue digit) 0
    let size := if marked ∧ rest.tail.head? = some '-' then -size else size
    if power ≠ [] ∧ fitsDouble (whole ++ fraction) (size - fraction.length) then some behind
    else none

/-- `stream >> t` for a `std::complex<double>`: whether the extraction succeeds. -/
def extractComplex (text : Text) : Bool :=
  match text.dropWhile isSpace with
  | '(' :: real =>
      match (extractDouble real).map (·.dropWhile isSpace) with
      | some (')' :: _) => true
      | some (',' :: imaginary) =>
          ((extractDouble imaginary).bind fun rest => (rest.dropWhile isSpace).head?) = some ')'
      | _ => false
  | real => (extractDouble real).isSome

example : extractDouble " -1.5e3x".toList = some "x".toList := by decide +kernel

example : extractDouble "1.8e308".toList = none := by decide +kernel

example : extractComplex "(1, .5)".toList = true := by decide +kernel

/-! ## `Option` -/

structure Opt where
  action : Action
  type : OptType
  dest : Text
  getDefault : Text
  nargs : ℕ
  getConst : Text
  choices : List Text
  deriving DecidableEq

namespace Opt

def new : Opt := ⟨.store, .string, [], [], 1, [], []⟩

/-- `action`. -/
def setAction (a : Action) (this : Opt) : Opt :=
  match a with
  | .storeConst | .storeTrue | .storeFalse | .appendConst | .count | .help | .version =>
      { this with action := a, nargs := 0 }
  | .store | .append | .callback => { this with action := a }

/-- `check_type`: the message of the error, if there is one. -/
def checkType (opt val : Text) (this : Opt) : Text :=
  match this.type with
  | .int | .long =>
      if (extract 32 val).2 = true then []
      else "option ".toList ++ opt ++ ": invalid integer value: '".toList ++ val ++ "'".toList
  | .float | .double =>
      if (extractDouble val).isSome = true then []
      else
        "option ".toList ++ opt ++ ": invalid floating-point value: '".toList ++ val ++ "'".toList
  | .choice =>
      if val ∈ this.choices then []
      else "option ".toList ++ opt ++ ": invalid choice: '".toList ++ val ++
        "' (choose from ".toList ++
        strJoin ", ".toList (this.choices.map fun choice => '\'' :: choice ++ "'".toList) ++
        ")".toList
  | .complex =>
      if extractComplex val = true then []
      else "option ".toList ++ opt ++ ": invalid complex value: '".toList ++ val ++ "'".toList
  | .string => []

end Opt

/-! ## `Values` -/

structure Values where
  map : AList fun _ : Text => Text
  appendMap : AList fun _ : Text => List Text
  userSet : Finset Text

namespace Values

def empty : Values := ⟨∅, ∅, ∅⟩

def isSet (d : Text) (this : Values) : Bool := (this.map.lookup d).isSome

/-- `operator[]`. -/
def get (d : Text) (this : Values) : Text := (this.map.lookup d).getD []

/-- `all`. -/
def all (d : Text) (this : Values) : List Text := (this.appendMap.lookup d).getD []

/-- Assign to `operator[]`. -/
def assign (d value : Text) (this : Values) : Values := { this with map := this.map.insert d value }

/-- Assign for the user. -/
def store (d value : Text) (this : Values) : Values :=
  { this.assign d value with userSet := insert d this.userSet }

/-- Push to the end of `all`. -/
def push (d value : Text) (this : Values) : Values :=
  { this with appendMap := this.appendMap.insert d (this.all d ++ [value]) }

/-- `get` as a `bool`. -/
def getBool (d : Text) (this : Values) : Bool :=
  this.isSet d && extract 64 (this.get d) = (1, true)

end Values

/-- `process_opt`. -/
def processOpt (o : Opt) (opt value : Text) (values : Values) : Except Exit Values :=
  match o.action with
  | .store =>
      if o.checkType opt value ≠ [] then .error (.error (o.checkType opt value))
      else .ok (values.store o.dest value)
  | .storeConst => .ok (values.store o.dest o.getConst)
  | .storeTrue => .ok (values.store o.dest "1".toList)
  | .storeFalse => .ok (values.store o.dest "0".toList)
  | .append =>
      if o.checkType opt value ≠ [] then .error (.error (o.checkType opt value))
      else .ok ((values.store o.dest value).push o.dest value)
  | .appendConst => .ok ((values.store o.dest o.getConst).push o.dest o.getConst)
  | .count =>
      match strInc (values.get o.dest) with
      | none => .error .undefined
      | some counted => .ok (values.store o.dest counted)
  | .help => .error .help
  | .version => .error .version
  | .callback => .ok values

/-! ## `OptionParser` -/

structure OptionParser where
  version : Text
  addHelpOption : Bool
  addVersionOption : Bool
  interspersedArgs : Bool
  values : Values
  opts : List Opt
  optmapS : AList fun _ : Text => Opt
  optmapL : AList fun _ : Text => Opt
  defaults : AList fun _ : Text => Text
  remaining : List Text
  leftover : List Text

namespace OptionParser

def new : OptionParser where
  version := []
  addHelpOption := true
  addVersionOption := true
  interspersedArgs := true
  values := .empty
  opts := []
  optmapS := ∅
  optmapL := ∅
  defaults := ∅
  remaining := []
  leftover := []

/-- The loop of `add_option` over the names, as far as it fills the destination and its
fallback. -/
def nameDest : List Text → Text × Text → Text × Text
  | [], found => found
  | name :: rest, (dest, fallback) =>
      if name.take 2 = "--".toList then
        let s := (name.drop 2).map fun char => if char = '-' then '_' else char
        nameDest rest (if dest = [] then s else dest, fallback)
      else
        let s := (name.drop 1).take 1
        nameDest rest (dest, if fallback = [] then s else fallback)

/-- Enter an option under one of its names. -/
def enter (option : Opt) (this : OptionParser) (name : Text) : OptionParser :=
  if name.take 2 = "--".toList then
    { this with optmapL := this.optmapL.insert (name.drop 2) option }
  else { this with optmapS := this.optmapS.insert ((name.drop 1).take 1) option }

/-- `add_option`, with the setters that are called on what it returns. -/
def addOption (names : List Text) (setters : Opt → Opt) (this : OptionParser) : OptionParser :=
  let (dest, fallback) := nameDest names ([], [])
  let option := setters { Opt.new with dest := if dest = [] then fallback else dest }
  names.foldl (enter option) { this with opts := this.opts ++ [option] }

/-- Move the last option to the front. -/
def spliceLast (this : OptionParser) : OptionParser :=
  { this with opts := this.opts.getLast?.toList ++ this.opts.dropLast }

def lookupShortOpt (opt : Text) (this : OptionParser) : Except Exit Opt :=
  match this.optmapS.lookup opt with
  | none => .error (.error ("no such option: -".toList ++ opt))
  | some option => .ok option

/-- The long names that begin with the text, in the order of `std::map`. -/
def matching (opt : Text) (this : OptionParser) : List Text :=
  (this.optmapL.keys.insertionSort (· ≤ ·)).filter fun name => name.take opt.length = opt

def lookupLongOpt (opt : Text) (this : OptionParser) : Except Exit Opt :=
  match this.matching opt with
  | [] => .error (.error ("no such option: --".toList ++ opt))
  | [name] =>
      match this.optmapL.lookup name with
      | none => .error (.error ("no such option: --".toList ++ opt))
      | some option => .ok option
  | matching => .error (.error ("ambiguous option: --".toList ++ opt ++ " (".toList ++
      strJoin ", ".toList matching ++ "?)".toList))

/-- Take the front of the remaining arguments away. -/
def popFront (this : OptionParser) : OptionParser := { this with remaining := this.remaining.tail }

/-- `process_opt` on the values of the parser. -/
def process (o : Opt) (opt value : Text) (this : OptionParser) : Except Exit OptionParser := do
  let values ← processOpt o opt value this.values
  pure { this with values := values }

def handleShortOpt (opt arg : Text) (this : OptionParser) : Except Exit OptionParser := do
  let this := this.popFront
  let option ← this.lookupShortOpt opt
  if option.nargs = 1 then
    let value := arg.drop 2
    if value = [] then
      match this.remaining with
      | [] => .error (.error ('-' :: opt ++ " option requires an argument".toList))
      | value :: _ => this.popFront.process option ('-' :: opt) value
    else this.process option ('-' :: opt) value
  else
    let this :=
      if 2 < arg.length then { this with remaining := ('-' :: arg.drop 2) :: this.remaining }
      else this
    this.process option ('-' :: opt) []

def handleLongOpt (optstr : Text) (this : OptionParser) : Except Exit OptionParser := do
  let this := this.popFront
  let (opt, behind) := optstr.span (· ≠ '=')
  let option ← this.lookupLongOpt opt
  let (value, this) :=
    if option.nargs = 1 ∧ behind = [] then (this.remaining.headD [], this.popFront)
    else (behind.drop 1, this)
  if option.nargs = 1 ∧ value = [] then
    .error (.error ("--".toList ++ opt ++ " option requires an argument".toList))
  else this.process option ("--".toList ++ opt) value

/-- The first loop of `parse_args`. -/
def parseLoop : ℕ → OptionParser → Except Exit OptionParser
  | 0, this => .ok this
  | fuel + 1, this =>
      match this.remaining with
      | [] => .ok this
      | arg :: _ =>
          if arg = "--".toList then .ok this.popFront
          else if arg.take 2 = "--".toList then
            this.handleLongOpt (arg.drop 2) >>= parseLoop fuel
          else if arg.take 1 = "-".toList ∧ 1 < arg.length then
            this.handleShortOpt ((arg.drop 1).take 1) arg >>= parseLoop fuel
          else
            let this := { this.popFront with leftover := this.leftover ++ [arg] }
            if this.interspersedArgs = false then .ok this else parseLoop fuel this

/-- Turns of the loop that are enough for the arguments. -/
def turns (args : List Text) : ℕ := (args.map fun arg => arg.length + 1).sum

/-- The loop of `parse_args` over the arguments behind the options. -/
def drain (this : OptionParser) : OptionParser :=
  { this with leftover := this.leftover ++ this.remaining, remaining := [] }

/-- Set a value where there is none. -/
def fill (values : Values) (dest value : Text) : Values :=
  if values.isSet dest then values else values.assign dest value

/-- The loops of `parse_args` over the defaults. -/
def fillDefaults (this : OptionParser) : OptionParser :=
  let values := this.defaults.entries.foldl (fun values entry => fill values entry.1 entry.2)
    this.values
  { this with values := this.opts.foldl (fun values option =>
      if option.getDefault ≠ [] then fill values option.dest option.getDefault else values) values }

def addVersion (this : OptionParser) : OptionParser :=
  if this.addVersionOption = true ∧ this.version ≠ [] then
    (this.addOption ["--version".toList] (·.setAction .version)).spliceLast
  else this

def addHelp (this : OptionParser) : OptionParser :=
  if this.addHelpOption = true then
    (this.addOption ["-h".toList, "--help".toList] (·.setAction .help)).spliceLast
  else this

/-- What `parse_args` does before its loops. -/
def prepare (args : List Text) (this : OptionParser) : OptionParser :=
  { this with remaining := args }.addVersion.addHelp

/-- `parse_args`. -/
def parseArgs (args : List Text) (this : OptionParser) : Except Exit OptionParser := do
  let this := this.prepare args
  let this ← parseLoop (turns this.remaining) this
  pure this.drain.fillDefaults

end OptionParser

end Optparse
