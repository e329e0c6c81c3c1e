import Devourer.Apps.Cli
import Devourer.Separation

/-! # From the command line to the conversations

A command line that names a well-formed capture and a destination that is accepted delivers
what there is to tell of its packets: the transactions of each DNS key, the conversations of
each flow key, and the ARP requests (`main_delivers`).
-/

set_option linter.dupNamespace false

namespace Devourer

open Optparse

namespace Cli

/-- **From the command line to the conversations.** The tool reads the line and exits with
success, and its reports deliver the packets of the capture that the line names. -/
theorem main_delivers (machine : Machine) (distinct : machine.netdec.Distinct)
    (built : Devourer.new machine.netdec machine.evIpv4 machine.evIpv6 ≠ none) (args : List Text)
    (uses : List Use) (left : List Text) (line : Line (parser.prepare args) args uses (.ok left))
    (noHelp : ∀ use ∈ uses, use.option.action ≠ .help)
    (noVersion : (Invocation.of uses).version = false) (src : Source) (target : Text)
    (capture : (Invocation.of uses).capture = some (src, target))
    (runs : (Invocation.of uses).Runs (machine.netcap src target))
    (wellFormed : Devourer.WellFormed machine.netdec (machine.netcap src target).packets.flatten) :
    (main machine args).result = some (.status 0) ∧
      Devourer.Delivers machine.netdec (machine.netcap src target).packets.flatten
        ((main machine args).events.filterMap CliEvent.report?) := by
  have each : ∀ use ∈ uses, use.option ∈ options := fun use member =>
    mem_options_of_knows (OptionParser.knows_of_line line use member)
  have parsed := OptionParser.parseArgs_of_line line
  obtain ⟨after, acts⟩ : ∃ after, act uses parser.values = .ok after := by
    rcases act_options each parser.values with ⟨⟨use, used, help⟩, -⟩ | ⟨-, acts⟩
    · exact (noHelp use used help).elim
    · exact acts
  rw [acts] at parsed
  have performed := view_main distinct parsed each (lookup_of_act each acts)
  have asked : (Invocation.of uses).perform machine =
      (Monitor.new machine.netdec).run machine.netdec
        (machine.netcap src target).packets.flatten >>= fun _ => pure (.status 0) := by
    unfold Invocation.perform
    rw [noVersion, if_neg Bool.false_ne_true, capture]
    exact (if_neg built).trans (if_pos runs)
  obtain ⟨returns, delivers⟩ := wellFormed.delivers distinct
  obtain ⟨last, returned⟩ := Option.isSome_iff_exists.mp returns
  rw [asked, Exec.bind_of_result returned] at performed
  have result : (main machine args).result.map id = some (.status 0) :=
    congrArg Exec.result performed
  have reports : (main machine args).events.filterMap CliEvent.report? = _ ++ [] :=
    congrArg Exec.events performed
  rw [Option.map_id_fun, id_eq] at result
  rw [reports, List.append_nil]
  exact ⟨result, delivers⟩

set_option maxRecDepth 20000 in
/-- Two flows, two DNS queries, one of them answered, and an ARP request, written to a file. -/
theorem main_delivers_sample :
    (main sampleMachine ["-rx".toList, "-o".toList, "y".toList]).result = some (.status 0) ∧
      Devourer.Delivers sampleMachine.netdec (Devourer.captured ++ [Devourer.handedOver]).flatten
        ((main sampleMachine ["-rx".toList, "-o".toList, "y".toList]).events.filterMap
          CliEvent.report?) := by
  apply main_delivers sampleMachine (by decide) (by decide) _ readingUses [] readingUses_line
  · decide
  · decide
  · rfl
  · exact ⟨nofun, rfl, rfl⟩
  · decide

end Cli

end Devourer
