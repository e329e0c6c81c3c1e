import Devourer.Apps.Effects
import Devourer.Destination
import Devourer.Program

/-! # The command line tool

`devourer_main` reads the command line, builds a `Devourer` for the capture that is named, sets
its destinations up, and starts it. The tool never deletes the `Devourer`, so that its end
reports nothing. What it reports is what the modules report of the packets of the capture
(`main_eq_perform`).
-/

set_option linter.dupNamespace false

namespace Devourer

open Optparse

/-- `devourer::Source`. -/
inductive Source where
  | pcapFile
  | interface
  deriving DecidableEq

/-- What the tool finds: the decoder, what the memory of `ModFlow` happens to hold, and the
capture for a source and a target. -/
structure Machine where
  netdec : NetDec
  evIpv4 : EvId
  evIpv6 : EvId
  netcap : Source → Text → NetCap

/-- What the tool does: what it prints to `std::cout` and `std::cerr`, and what happens in the
calls of `Devourer`. The usage and the name of the program in front of an error are left out. -/
inductive CliEvent where
  | out (text : Text)
  | err (text : Text)
  | devourer (event : DevourerEvent)

/-- How the program ends: with a status, or by an exception that nothing catches. -/
inductive Ended where
  | status (code : ℕ)
  | terminate
  deriving DecidableEq

/-- The message of an exception. -/
def DevourerEvent.threw? : DevourerEvent → Option String
  | .threw errmsg => some errmsg
  | _ => none

/-- What the modules report. -/
def CliEvent.report? : CliEvent → Option Report
  | .devourer event => event.report?
  | _ => none

namespace Cli

/-- The options that `devourer_main` adds. -/
def parser : OptionParser :=
  let psr := OptionParser.new
  let psr := psr.addOption ["-r".toList] fun option => { option with dest := "read_file".toList }
  let psr := psr.addOption ["-i".toList] fun option => { option with dest := "interface".toList }
  let psr := psr.addOption ["-f".toList] fun option => { option with dest := "fluentd".toList }
  let psr := psr.addOption ["-o".toList] fun option => { option with dest := "output".toList }
  psr.addOption ["-v".toList] fun option =>
    { option with dest := "version".toList }.setAction .storeTrue

/-- `devourer::VERSION`. -/
def version : Text := "0.1.0".toList

/-- A call in the `try` block: the `Devourer`, or the message of the exception. -/
def attempt (call : Devourer.Call) (this : Devourer) :
    Exec DevourerEvent (Except String Devourer) :=
  let outcome := this.call call
  ⟨outcome.events, outcome.result.map fun after =>
    match outcome.events.findSome? DevourerEvent.threw? with
    | some errmsg => .error errmsg
    | none => .ok after⟩

/-- The calls of the `try` block, up to the first exception. -/
def attempts : List Devourer.Call → Devourer → Exec DevourerEvent (Except String Devourer)
  | [], this => pure (.ok this)
  | call :: rest, this => do
      match ← attempt call this with
      | .error errmsg => pure (.error errmsg)
      | .ok this => attempts rest this

/-- The calls that the options ask for. -/
def calls (opt : Values) (netcap : NetCap) : List Devourer.Call :=
  (if opt.isSet "output".toList = true then
    [.setdstFilestream (String.ofList (opt.get "output".toList))] else []) ++
  (if opt.isSet "fluentd".toList = true then
    [.setdstFluentd (String.ofList (opt.get "fluentd".toList))] else []) ++
  [.start netcap]

/-- The `catch` block, and what `devourer_main` returns. -/
def caught (tried : Exec DevourerEvent (Except String Devourer)) :
    Exec CliEvent (Except Ended Bool) := do
  match ← tried.mapEvents .devourer with
  | .error errmsg =>
      Exec.emit (.err ("Devourer Error: ".toList ++ errmsg.toList))
      pure (.ok false)
  | .ok _ => pure (.ok true)

/-- The end of the program in the parser. -/
def exit : Exit → Exec CliEvent (Except Ended Bool)
  | .help | .version => pure (.error (.status 0))
  | .error msg => do
      Exec.emit (.err msg)
      pure (.error (.status 2))
  | .undefined => Exec.abort

/-- `devourer_main`, and whether it returns true, unless the program ends before. -/
def devourerMain (machine : Machine) (args : List Text) : Exec CliEvent (Except Ended Bool) :=
  match parser.parseArgs args with
  | .error ended => exit ended
  | .ok psr => do
      let opt := psr.values
      if opt.getBool "version".toList = true then
        Exec.emit (.out ("Version: ".toList ++ version))
        pure (.ok true)
      else
        let target :=
          if opt.isSet "read_file".toList = true then
            some (Source.pcapFile, opt.get "read_file".toList)
          else if opt.isSet "interface".toList = true then
            some (Source.interface, opt.get "interface".toList)
          else none
        match target with
        | none =>
            Exec.emit (.err "One from file or interface should be specified".toList)
            pure (.ok false)
        | some (src, target) =>
            match Devourer.new machine.netdec machine.evIpv4 machine.evIpv6 with
            | none => pure (.error .terminate)
            | some devourer => caught (attempts (calls opt (machine.netcap src target)) devourer)

/-- What `main` exits with. -/
def status : Except Ended Bool → Ended
  | .error ended => ended
  | .ok true => .status 0
  | .ok false => .status 1

/-- `main`, given the arguments behind the name of the program. -/
def main (machine : Machine) (args : List Text) : Exec CliEvent Ended := do
  let returned ← devourerMain machine args
  pure (status returned)

/-! ## What the options are -/

/-- The options of the tool, with the one for the help. -/
def options : List Opt :=
  [{ Opt.new with dest := "read_file".toList }, { Opt.new with dest := "interface".toList },
    { Opt.new with dest := "fluentd".toList }, { Opt.new with dest := "output".toList },
    { Opt.new with dest := "version".toList }.setAction .storeTrue,
    { Opt.new with dest := "help".toList }.setAction .help]

theorem mem_options_of_knows {args : List Text} {option : Opt}
    (knows : (parser.prepare args).Knows option) : option ∈ options := by
  have shorts : ∀ entry ∈ (parser.prepare []).optmapS.entries, entry.2 ∈ options := by decide
  have longs : ∀ entry ∈ (parser.prepare []).optmapL.entries, entry.2 ∈ options := by decide
  rcases knows with ⟨name, entered⟩ | ⟨name, entered⟩
  · exact shorts _ (AList.mem_lookup_iff.mp entered)
  · exact longs _ (AList.mem_lookup_iff.mp entered)

variable {uses : List Use} {values after : Values} {d : Text}

/-- What the last use for a destination assigns. -/
def last (d : Text) (uses : List Use) : Option Text := (uses.filterMap (Use.assigns d)).getLast?

/-- **The uses of the tool's options.** The help ends the program, and nothing else does. -/
theorem act_options (each : ∀ use ∈ uses, use.option ∈ options) (values : Values) :
    (∃ use ∈ uses, use.option.action = .help) ∧ act uses values = .error .help ∨
      (∀ use ∈ uses, use.option.action ≠ .help) ∧ ∃ after, act uses values = .ok after := by
  have kinds : ∀ option ∈ options, option.action = .help ∨ option.action = .storeTrue ∨
      option.action = .store ∧ option.type = .string := by decide
  induction uses generalizing values with
  | nil => exact .inr ⟨List.forall_mem_nil _, values, rfl⟩
  | cons use uses ih =>
      rw [List.forall_mem_cons] at each
      have goes : ∀ next, use.act values = .ok next → use.option.action ≠ .help →
          (∃ other ∈ use :: uses, other.option.action = .help) ∧
              act (use :: uses) values = .error .help ∨
            (∀ other ∈ use :: uses, other.option.action ≠ .help) ∧
              ∃ after, act (use :: uses) values = .ok after := by
        intro next acts other
        rw [OptionParser.act_cons, acts]
        rcases ih each.2 next with ⟨⟨use', member, help⟩, stopped⟩ | ⟨none, acted⟩
        · exact .inl ⟨⟨use', List.mem_cons_of_mem _ member, help⟩, stopped⟩
        · exact .inr ⟨List.forall_mem_cons.mpr ⟨other, none⟩, acted⟩
      rcases kinds use.option each.1 with help | flag | ⟨store, string⟩
      · refine .inl ⟨⟨use, List.mem_cons_self, help⟩, ?_⟩
        rw [OptionParser.act_cons, Use.act, processOpt, help]
        rfl
      · refine goes (values.store use.option.dest "1".toList) ?_ (by rw [flag]; decide)
        rw [Use.act, processOpt, flag]
      · refine goes (values.store use.option.dest use.value) ?_ (by rw [store]; decide)
        rw [Use.act, processOpt, store]
        dsimp only
        rw [Opt.checkType, string]
        exact if_neg (not_not_intro rfl)

/-- The values after the uses are what the last of them assigned. -/
theorem lookup_of_act (each : ∀ use ∈ uses, use.option ∈ options)
    (acts : act uses .empty = .ok after) (d : Text) : after.map.lookup d = last d uses := by
  have counts : ∀ option ∈ options, option.action ≠ .count := by decide
  have assigned := (values_of_act uses .empty after acts d).1 fun use member counting =>
    counts use.option (each use member) counting.2
  exact assigned.trans (Option.or_none ..)

/-- The version is asked for by a flag. -/
theorem last_version (each : ∀ use ∈ uses, use.option ∈ options) :
    last "version".toList uses = none ∨ last "version".toList uses = some "1".toList := by
  have flag : ∀ option ∈ options, option.dest = "version".toList → option.action = .storeTrue := by
    decide
  have ones : ∀ value ∈ uses.filterMap (Use.assigns "version".toList), value = "1".toList := by
    intro value member
    obtain ⟨use, used, assigns⟩ := List.mem_filterMap.mp member
    unfold Use.assigns at assigns
    split at assigns
    · rename_i same
      rw [flag use.option (each use used) same] at assigns
      exact (Option.some.inj assigns).symm
    · cases assigns
  unfold last
  cases found : (uses.filterMap (Use.assigns "version".toList)).getLast? with
  | none => exact .inl rfl
  | some value => exact .inr (congrArg some (ones value (List.mem_of_getLast? found)))

/-! ## The calls of `Devourer` -/

/-- No exception is thrown. -/
def Calm (events : List DevourerEvent) : Prop := ∀ event ∈ events, event.threw? = none

theorem findSome?_of_calm {events : List DevourerEvent} (calm : Calm events) :
    events.findSome? DevourerEvent.threw? = none := List.findSome?_eq_none_iff.mpr calm

theorem calm_map_of {ε : Type} (id : ModuleId) {name : ε → DevourerEvent}
    (plain : ∀ reported, (name reported).threw? = none) (events : List (Logged ε)) :
    Calm (events.map (.of id name)) := by
  unfold Calm
  rw [List.forall_mem_map]
  intro event _
  cases event with
  | deref isSet => rfl
  | event reported => exact plain reported

/-- The modules throw nothing. -/
theorem calm_receive (dispatches : List (ModuleId × Decoded)) (this : Devourer) :
    Calm (this.receive dispatches).events := by
  refine Exec.forall_run_events.mpr fun earlier dispatch front middle returned => ?_
  obtain ⟨id, event⟩ := dispatch
  cases id with
  | modDns =>
      have same : middle.recv .modDns event = _ := Exec.mapEvents_bind_pure ..
      rw [same]
      exact calm_map_of .modDns (fun _ => rfl) _
  | modFlow =>
      have same : middle.recv .modFlow event = _ := Exec.mapEvents_bind_pure ..
      rw [same]
      exact calm_map_of .modFlow (fun _ => rfl) _
  | modLocal =>
      have same : middle.recv .modLocal event = _ := Exec.mapEvents_bind_pure ..
      rw [same]
      exact calm_map_of .modLocal (fun _ => rfl) _

/-- A destination of `setdst_fluentd` that is not refused. -/
def Accepted (dst : Text) : Prop :=
  ∀ host strPort, dst = host ++ ':' :: strPort → ':' ∉ host → ReadsToEnd (cStr strPort)

/-- A capture that begins. -/
def Begins (netcap : NetCap) : Prop :=
  netcap.ready = true ∧ ModuleId.installed.all netcap.registers = true

variable {netdec : NetDec} {this : Devourer} {netcap : NetCap} {rest : List Devourer.Call}

theorem attempts_of_ok {call : Devourer.Call} {next : Devourer}
    (ok : attempt call this = pure (.ok next)) :
    attempts (call :: rest) this = attempts rest next := by
  rw [attempts, ok]
  rfl

theorem attempts_of_error {call : Devourer.Call} {errmsg : String}
    (thrown : attempt call this = ⟨[.threw errmsg], some (.error errmsg)⟩) :
    attempts (call :: rest) this = ⟨[.threw errmsg], some (.error errmsg)⟩ := by
  rw [attempts, thrown]
  rfl

theorem attempt_filestream (fpath : String) (this : Devourer) : ∃ logger,
    attempt (.setdstFilestream fpath) this = pure (.ok { this with logger }) := ⟨_, rfl⟩

/-- **When the destination is refused.** -/
theorem attempt_fluentd (dst : Text) (this : Devourer) :
    Accepted dst ∧ (∃ logger,
        attempt (.setdstFluentd (String.ofList dst)) this = pure (.ok { this with logger })) ∨
      ¬ Accepted dst ∧ ∃ errmsg, attempt (.setdstFluentd (String.ofList dst)) this =
        ⟨[.threw errmsg], some (.error errmsg)⟩ := by
  have same : (String.ofList dst).toList = dst := String.toList_ofList
  have call : attempt (.setdstFluentd (String.ofList dst)) this =
      let outcome := this.setdstFluentd (String.ofList dst)
      ⟨outcome.events, outcome.result.map fun after =>
        match outcome.events.findSome? DevourerEvent.threw? with
        | some errmsg => .error errmsg
        | none => .ok after⟩ := rfl
  by_cases colon : ':' ∈ dst
  · obtain ⟨host, strPort, split, first⟩ := List.eq_append_cons_of_mem colon
    have only : Accepted dst ↔ ReadsToEnd (cStr strPort) := by
      refine ⟨fun accepted => accepted host strPort split first,
        fun ends host' strPort' split' first' => ?_⟩
      have whole : (host ++ ':' :: strPort).span (· ≠ ':') = (host, ':' :: strPort) :=
        Devourer.span_colon first (by simp)
      rw [← split, split', Devourer.span_colon first' (by simp)] at whole
      cases whole
      exact ends
    rw [call, Devourer.setdstFluentd_port (same.trans split) first]
    by_cases ends : (strtoul strPort).2.headD (Char.ofNat 0) = Char.ofNat 0
    · rw [if_pos ends]
      exact .inl ⟨only.mpr ((strtoul_ends_iff strPort).mp ends), _, rfl⟩
    · rw [if_neg ends]
      exact .inr ⟨fun accepted => ends ((strtoul_ends_iff strPort).mpr (only.mp accepted)), _, rfl⟩
  · rw [call, Devourer.setdstFluentd_host (by rw [same]; exact colon)]
    refine .inl ⟨fun host strPort split _ => ?_, _, rfl⟩
    exact (colon (by rw [split]; simp)).elim

/-- **When the capture begins.** -/
theorem attempt_start (plugged : this.Plugged netdec) (netcap : NetCap) :
    Begins netcap ∧ attempt (.start netcap) this =
        ⟨(this.start netcap).events, (this.start netcap).result.map .ok⟩ ∨
      ¬ Begins netcap ∧ attempt (.start netcap) this =
        ⟨[.threw netcap.errmsg], some (.error netcap.errmsg)⟩ := by
  have call : attempt (.start netcap) this =
      let outcome := this.start netcap
      ⟨outcome.events, outcome.result.map fun after =>
        match outcome.events.findSome? DevourerEvent.threw? with
        | some errmsg => .error errmsg
        | none => .ok after⟩ := rfl
  obtain ⟨fluent, same, -⟩ := Devourer.setupModules_spec netcap ModuleId.installed this
  unfold Begins
  rw [call]
  unfold Devourer.start
  rw [plugged.modules, same]
  by_cases ready : netcap.ready = true
  swap
  · rw [if_pos (Bool.not_eq_true _ ▸ ready)]
    exact .inr ⟨fun begins => ready begins.1, rfl⟩
  rw [if_neg (Bool.not_eq_false _ ▸ ready)]
  cases all : ModuleId.installed.all netcap.registers with
  | false => exact .inr ⟨fun begins => Bool.false_ne_true begins.2, rfl⟩
  | true =>
      refine .inl ⟨⟨ready, rfl⟩, ?_⟩
      dsimp only
      rw [findSome?_of_calm (calm_receive _ _)]

/-! ## What is asked for -/

/-- What a command line asks for. -/
structure Invocation where
  version : Bool
  readFile : Option Text
  interface : Option Text
  output : Option Text
  fluentd : Option Text

namespace Invocation

/-- The last use counts. -/
def of (uses : List Use) : Invocation where
  version := (last "version".toList uses).isSome
  readFile := last "read_file".toList uses
  interface := last "interface".toList uses
  output := last "output".toList uses
  fluentd := last "fluentd".toList uses

/-- The capture that is named; a file goes before an interface. -/
def capture (this : Invocation) : Option (Source × Text) :=
  (this.readFile.map (Source.pcapFile, ·)).or (this.interface.map (Source.interface, ·))

/-- The calls of `Devourer`. -/
def calls (netcap : NetCap) (this : Invocation) : List Devourer.Call :=
  (this.output.map fun fpath => Devourer.Call.setdstFilestream (String.ofList fpath)).toList ++
    (this.fluentd.map fun dst => Devourer.Call.setdstFluentd (String.ofList dst)).toList ++
    [.start netcap]

/-- The destinations are accepted and the capture begins. -/
def Runs (netcap : NetCap) (this : Invocation) : Prop :=
  (∀ dst ∈ this.fluentd, Accepted dst) ∧ Begins netcap

open Classical in
/-- What the tool is for: the reports of the modules on the packets of the capture. An exception
of the constructor is not caught. -/
noncomputable def perform (machine : Machine) (this : Invocation) : Exec Report Ended :=
  if this.version = true then pure (.status 0)
  else
    match this.capture with
    | none => pure (.status 1)
    | some (src, target) =>
        let netcap := machine.netcap src target
        if Devourer.new machine.netdec machine.evIpv4 machine.evIpv6 = none then pure .terminate
        else if this.Runs netcap then do
          let _ ← (Monitor.new machine.netdec).run machine.netdec netcap.packets.flatten
          pure (.status 0)
        else pure (.status 1)

end Invocation

variable {asked : Invocation}

theorem calls_eq (same : ∀ d, after.map.lookup d = last d uses) (netcap : NetCap) :
    calls after netcap = (Invocation.of uses).calls netcap := by
  unfold calls Invocation.calls Values.isSet Values.get Invocation.of
  rw [same, same]
  cases last "output".toList uses with
  | none =>
      cases last "fluentd".toList uses with
      | none => rfl
      | some dst => rfl
  | some fpath =>
      cases last "fluentd".toList uses with
      | none => rfl
      | some dst => rfl

open Classical in
/-- **The capture.** -/
theorem view_start (plugged : this.Plugged netdec) (distinct : netdec.Distinct) :
    Exec.view DevourerEvent.report? Except.isOk (attempts [.start netcap] this) =
      if Begins netcap then this.monitor.run netdec netcap.packets.flatten >>= fun _ => pure true
      else pure false := by
  rcases attempt_start plugged netcap with ⟨begins, runs⟩ | ⟨not, thrown⟩
  · have set := (plugged.toWired.start netcap).1
    have reports := (plugged.start distinct set).1
    have decoded : (Devourer.Call.start netcap).decoded = netcap.packets.flatten := if_pos begins
    rw [decoded] at reports
    rw [if_pos begins, ← reports, attempts, runs]
    generalize this.start netcap = outcome
    obtain ⟨events, result⟩ := outcome
    cases result with
    | none => rfl
    | some after =>
        refine congrArg (Exec.mk · (some true)) ?_
        exact (congrArg _ (List.append_nil _)).trans (List.append_nil _).symm
  · rw [attempts_of_error thrown, if_neg not]
    rfl

open Classical in
/-- **The calls of `Devourer`.** -/
theorem view_attempts (plugged : this.Plugged netdec) (distinct : netdec.Distinct) :
    Exec.view DevourerEvent.report? Except.isOk (attempts (asked.calls netcap) this) =
      if asked.Runs netcap then
        this.monitor.run netdec netcap.packets.flatten >>= fun _ => pure true
      else pure false := by
  have fluentd : ∀ {this : Devourer}, this.Plugged netdec →
      Exec.view DevourerEvent.report? Except.isOk (attempts ((asked.fluentd.map fun dst =>
          Devourer.Call.setdstFluentd (String.ofList dst)).toList ++ [.start netcap]) this) =
        if asked.Runs netcap then
          this.monitor.run netdec netcap.packets.flatten >>= fun _ => pure true
        else pure false := by
    intro this plugged
    unfold Invocation.Runs
    cases asked.fluentd with
    | none =>
        refine (view_start plugged distinct).trans ?_
        simp only [Option.not_mem_none, IsEmpty.forall_iff, implies_true, true_and]
    | some dst =>
        have each : (∀ other ∈ some dst, Accepted other) ↔ Accepted dst := by simp
        rw [each]
        rcases attempt_fluentd dst this with ⟨accepted, logger, ok⟩ | ⟨refused, errmsg, thrown⟩
        · have next : ({ this with logger } : Devourer).Plugged netdec := { plugged with }
          refine (congrArg _ (attempts_of_ok ok)).trans ((view_start next distinct).trans ?_)
          simp only [accepted, true_and]
          rfl
        · rw [if_neg fun runs => refused runs.1]
          refine Eq.trans (congrArg _ (attempts_of_error thrown)) rfl
  unfold Invocation.calls
  rw [List.append_assoc]
  cases asked.output with
  | none => exact fluentd plugged
  | some fpath =>
      obtain ⟨logger, ok⟩ := attempt_filestream (String.ofList fpath) this
      have next : ({ this with logger } : Devourer).Plugged netdec := { plugged with }
      exact Eq.trans (congrArg _ (attempts_of_ok ok)) (fluentd next)

open Classical in
/-- The outcome of a command line: the help ends the program when it is used, an error in the
line when nothing did before, and otherwise what is asked for is performed. -/
noncomputable def outcome (machine : Machine) (uses : List Use)
    (ending : Except Exit (List Text)) : Exec Report Ended :=
  if ∃ use ∈ uses, use.option.action = .help then pure (.status 0)
  else
    match ending with
    | .error _ => pure (.status 2)
    | .ok _ => (Invocation.of uses).perform machine

theorem getBool_version (each : ∀ use ∈ uses, use.option ∈ options)
    (same : ∀ d, after.map.lookup d = last d uses) :
    after.getBool "version".toList = (Invocation.of uses).version := by
  unfold Values.getBool Values.isSet Values.get Invocation.of
  rw [same]
  rcases last_version each with none | one
  · rw [none]
    rfl
  · rw [one]
    have reads : extract 64 "1".toList = (1, true) := by decide
    exact decide_eq_true reads

/-- The target of the `Devourer` is the capture that is named. -/
theorem target_eq (same : ∀ d, after.map.lookup d = last d uses) :
    (if after.isSet "read_file".toList = true then
        some (Source.pcapFile, after.get "read_file".toList)
      else if after.isSet "interface".toList = true then
        some (Source.interface, after.get "interface".toList)
      else none) = (Invocation.of uses).capture := by
  unfold Values.isSet Values.get Invocation.capture Invocation.of
  rw [same, same]
  cases last "read_file".toList uses with
  | some target => rfl
  | none =>
      cases last "interface".toList uses with
      | some target => rfl
      | none => rfl

/-- What is seen of the `try` block and its end. -/
theorem view_caught (tried : Exec DevourerEvent (Except String Devourer)) :
    Exec.view CliEvent.report? id (caught tried >>= fun returned => pure (status returned)) =
      Exec.view DevourerEvent.report? Except.isOk tried >>= fun ok =>
        pure (.status (if ok = true then 0 else 1)) := by
  obtain ⟨events, result⟩ := tried
  have seen : (events.map CliEvent.devourer).filterMap CliEvent.report? =
      events.filterMap DevourerEvent.report? := by
    rw [List.filterMap_map]
    rfl
  cases result with
  | none => exact congrArg (Exec.mk · none) seen
  | some returned =>
      cases returned with
      | error errmsg =>
          refine congrArg (Exec.mk · (some (Ended.status 1))) (List.filterMap_append.trans ?_)
          refine congrArg (· ++ []) (List.filterMap_append.trans ?_)
          exact (congrArg (· ++ []) seen).trans (List.append_nil _)
      | ok after =>
          refine congrArg (Exec.mk · (some (Ended.status 0))) (List.filterMap_append.trans ?_)
          refine congrArg (· ++ []) (List.filterMap_append.trans ?_)
          exact (congrArg (· ++ []) seen).trans (List.append_nil _)

/-- What is asked for is performed once the line is parsed. -/
theorem view_main {machine : Machine} (distinct : machine.netdec.Distinct) {args : List Text}
    {psr : OptionParser} (parsed : parser.parseArgs args = .ok psr)
    (each : ∀ use ∈ uses, use.option ∈ options)
    (lookups : ∀ d, psr.values.map.lookup d = last d uses) :
    Exec.view CliEvent.report? id (main machine args) = (Invocation.of uses).perform machine := by
  unfold main devourerMain Invocation.perform
  rw [parsed]
  dsimp only
  rw [getBool_version each lookups, target_eq lookups]
  by_cases version : (Invocation.of uses).version = true
  · rw [if_pos version, if_pos version]
    rfl
  rw [if_neg version, if_neg version]
  cases (Invocation.of uses).capture with
  | none => rfl
  | some capture =>
      obtain ⟨src, target⟩ := capture
      dsimp only
      cases built : Devourer.new machine.netdec machine.evIpv4 machine.evIpv6 with
      | none => exact (if_pos rfl).symm
      | some this =>
          obtain ⟨plugged, same⟩ := Devourer.Plugged.new built
          rw [calls_eq lookups, if_neg (Option.some_ne_none this)]
          dsimp only
          rw [view_caught, view_attempts plugged distinct, same]
          split
          · generalize Monitor.run _ _ _ = ran
            obtain ⟨events, result⟩ := ran
            cases result with
            | none => rfl
            | some after => exact congrArg (Exec.mk · _) (List.append_nil _)
          · rfl

/-- A machine with a capture of IP packets, DNS packets and an ARP request behind every name. -/
def sampleMachine : Machine where
  netdec := Devourer.sampleNetDec
  evIpv4 := 0
  evIpv6 := 0
  netcap := fun _ _ => ⟨true, fun _ => false, "", Devourer.captured ++ [Devourer.handedOver]⟩

/-- A capture that is read and written to a file, as the line with these options asks. -/
def readingUses : List Use :=
  [⟨{ Opt.new with dest := "read_file".toList }, "-r".toList, "x".toList⟩,
    ⟨{ Opt.new with dest := "output".toList }, "-o".toList, "y".toList⟩]

theorem readingUses_line : Line (parser.prepare ["-rx".toList, "-o".toList, "y".toList])
    ["-rx".toList, "-o".toList, "y".toList] readingUses (.ok []) := by
  apply Line.attached (by decide) rfl rfl (List.cons_ne_nil _ _)
  exact .valued _ (by decide) rfl rfl (.valued _ (by decide) rfl rfl .nil)

end Cli

end Devourer
