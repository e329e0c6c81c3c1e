import Devourer.Foundation.Climb
import Devourer.Modules.Dns.Resolution
import Devourer.Modules.Flow.Clock
import Mathlib.Algebra.Order.Group.Int

/-! # The clocks of the two modules

Each module moves its tables by the seconds that its clock goes forward. `ModFlow`
keeps the latest second that it has seen, so the ticks it passes add up to how far
this second lies after the first one. `ModDns` keeps the second of the last packet,
wherever it lies; after a step backwards the way forward is passed to the tables once
more. The two clocks therefore agree only as long as each step forwards starts at the
latest second so far (`clocks_agree_iff`).
-/

namespace Devourer

namespace ModDns

/-- The ticks that a call passes to each of the three tables. -/
def passed (this : ModDns) (input : Input) : ℕ := ticksTo input.p.tvSec this.lastTs

/-- The ticks that a sequence of calls passes. -/
def totalTicks (start : ModDns) (inputs : List Input) : ℕ :=
  Exec.total (fun this input => this.recv input.memory input.p) passed start inputs

/-- The tables count the ticks passed to them. -/
structure Counts (total : ℕ) (this : ModDns) : Prop where
  queries : this.queryTable.table.currTick = sizeT total
  addrs : this.addrTable.table.currTick = sizeT total
  names : this.nameTable.table.currTick = sizeT total

variable {this after : ModDns} {input : Input} {total : ℕ}

theorem Counts.recv (counts : Counts total this) (kept : this.Kept)
    (returned : (this.recv input.memory input.p).result = some after) :
    after.lastTs = input.p.tvSec ∧ Counts (total + this.passed input) after := by
  have ticked : Counts (total + this.passed input) (this.tick input.p.tvSec) := by
    obtain ⟨queries, addrs, names⟩ := counts
    by_cases progress : this.Progresses input.p.tvSec
    · have passes : this.passed input = sizeOfTime (input.p.tvSec - this.lastTs) :=
        if_pos progress
      rw [passes, tick_of_progresses progress]
      refine ⟨?_, ?_, ?_⟩
      · change sizeT (this.queryTable.table.currTick + _) = _
        rw [queries]
        exact Nat.mod_add_mod ..
      · change sizeT (this.addrTable.table.currTick + _) = _
        rw [addrs]
        exact Nat.mod_add_mod ..
      · change sizeT (this.nameTable.table.currTick + _) = _
        rw [names]
        exact Nat.mod_add_mod ..
    · have passes : this.passed input = 0 := if_neg progress
      rw [passes, tick_of_not_progresses progress]
      exact ⟨queries, addrs, names⟩
  obtain ⟨events, -, handled⟩ := handled_of_recv returned
  obtain ⟨queries, addrs, names⟩ := ticked
  have now := tick_lastTs input.p.tvSec this
  cases handled with
  | asked => exact ⟨now, (Pool.put_currTick _ _).trans queries, addrs, names⟩
  | askedAgain => exact ⟨now, queries, addrs, names⟩
  | answered id qName logs after _ found named told remembered =>
      have kept := kept.tick input.p.tvSec
      have framed := ((kept.answering id).remember remembered).framed
      refine ⟨framed.lastTs.trans now, ?_, framed.addrTick.trans addrs, framed.nameTick.trans names⟩
      rw [kept.answered_queryTable remembered]
      exact queries
  | missed => exact ⟨now, queries, addrs, names⟩

/-- What a sequence of calls passes to the tables: the rises of the seconds. -/
theorem Counts.run {inputs : List Input} (counts : Counts total this) (kept : this.Kept)
    (positive : ∀ input ∈ inputs, 0 < input.p.tvSec)
    (reached : (this.run inputs).result = some after) :
    Counts (total + totalTicks this inputs) after ∧
      (0 < this.lastTs → (totalTicks this inputs : ℤ) =
        rises this.lastTs (inputs.map fun input => input.p.tvSec)) := by
  induction inputs generalizing this total with
  | nil =>
      cases reached
      exact ⟨counts, fun _ => rfl⟩
  | cons input rest ih =>
      obtain ⟨next, returned, rested⟩ := Exec.bind_result_eq_some.mp reached
      obtain ⟨now, counted⟩ := counts.recv kept returned
      obtain ⟨here, later⟩ := List.forall_mem_cons.mp positive
      obtain ⟨counts, rising⟩ := ih counted (kept.recv returned) later rested
      have split : totalTicks this (input :: rest) = this.passed input + totalTicks next rest :=
        Exec.total_cons rest returned
      rw [split]
      refine ⟨by rwa [← Nat.add_assoc], fun started => ?_⟩
      have risen := rising (now ▸ here)
      rw [now] at risen
      rw [List.map_cons, rises, ← risen, Nat.cast_add]
      congr 1
      have upper := input.p.tvSec_upper
      by_cases forward : this.lastTs < input.p.tvSec
      · rw [passed, ticksTo, if_pos ⟨started, forward⟩,
          sizeOfTime_of_nonneg (by omega) (by omega)]
        omega
      · rw [passed, ticksTo, if_neg fun both => forward both.2]
        omega

/-- The ticks of a run from the start: nothing is passed for the first packet. -/
theorem totalTicks_new {inputs : List Input} (positive : ∀ input ∈ inputs, 0 < input.p.tvSec)
    (reached : (ModDns.new.run inputs).result = some after) :
    Counts (totalTicks ModDns.new inputs) after ∧
      ∀ first rest, (inputs.map fun input => input.p.tvSec) = first :: rest →
        (totalTicks ModDns.new inputs : ℤ) = rises first rest := by
  have counts : Counts 0 ModDns.new := ⟨rfl, rfl, rfl⟩
  obtain ⟨counted, -⟩ := counts.run Kept.new positive reached
  rw [Nat.zero_add] at counted
  refine ⟨counted, fun first rest same => ?_⟩
  cases inputs with
  | nil => cases same
  | cons input inputs =>
      obtain ⟨rfl, rfl⟩ := List.cons.inj same
      obtain ⟨next, returned, rested⟩ := Exec.bind_result_eq_some.mp reached
      obtain ⟨now, counted⟩ := counts.recv Kept.new returned
      obtain ⟨here, later⟩ := List.forall_mem_cons.mp positive
      obtain ⟨-, rising⟩ := counted.run (Kept.new.recv returned) later rested
      have split : totalTicks ModDns.new (input :: inputs) = 0 + totalTicks next inputs :=
        Exec.total_cons inputs returned
      rw [split, Nat.zero_add, rising (now ▸ here), now]

end ModDns

namespace ModFlow

/-- The ticks that a call passes to the flow table. -/
def passed (this : ModFlow) (input : Input) : ℕ :=
  if this.lastTs ≠ 0 ∧ this.lastTs < input.p.tvSec then sizeOfTime (input.p.tvSec - this.lastTs)
  else 0

/-- The ticks that a sequence of calls passes. -/
def totalTicks (start : ModFlow) (inputs : List Input) : ℕ :=
  Exec.total (fun this input => this.recv input.dns input.eid input.p) passed start inputs

variable {this after : ModFlow} {input : Input} {total : ℕ}

/-- One call passes what the clock goes forward. -/
theorem recv_currTick (kept : this.Kept) (clocked : this.Clocked) (positive : 0 < input.p.tvSec)
    (counts : this.flowTable.table.currTick = sizeT total)
    (returned : (this.recv input.dns input.eid input.p).result = some after) :
    after.lastTs = max this.lastTs input.p.tvSec ∧ after.Clocked ∧
      after.flowTable.table.currTick = sizeT (total + this.passed input) := by
  obtain ⟨-, middle, handling, ticked, handled, -⟩ :=
    handled_of_recv kept returned
  have now := ticked.lastTs_eq clocked positive
  refine ⟨handled.lastTs.trans now,
    handled.clocked (ticked.clocked clocked positive) (by omega) positive, ?_⟩
  have moved : middle.flowTable.table.currTick = sizeT (total + this.passed input) := by
    rw [ticked.currTick, passed]
    split
    · rw [counts]
      exact Nat.mod_add_mod ..
    · exact counts
  cases handled with
  | skipped => exact moved
  | known => exact moved
  | fresh => exact (Pool.put_currTick _ _).trans moved

/-- What a sequence of calls passes to the table: how far the latest second lies after
the one that the clock showed. -/
theorem totalTicks_eq {inputs : List Input} (kept : this.Kept) (clocked : this.Clocked)
    (positive : ∀ input ∈ inputs, 0 < input.p.tvSec)
    (counts : this.flowTable.table.currTick = sizeT total)
    (reached : (this.run inputs).result = some after) :
    after.flowTable.table.currTick = sizeT (total + totalTicks this inputs) ∧
      (0 < this.lastTs → (totalTicks this inputs : ℤ) =
        (inputs.map fun input => input.p.tvSec).foldl max this.lastTs - this.lastTs) := by
  induction inputs generalizing this total with
  | nil =>
      cases reached
      exact ⟨counts, fun _ => (Int.sub_self _).symm⟩
  | cons input rest ih =>
      obtain ⟨next, returned, rested⟩ := Exec.bind_result_eq_some.mp reached
      obtain ⟨here, later⟩ := List.forall_mem_cons.mp positive
      obtain ⟨now, clockedNext, counted⟩ := recv_currTick kept clocked here counts returned
      obtain ⟨counts, raised⟩ := ih (kept.recv returned) clockedNext later counted rested
      have split : totalTicks this (input :: rest) = this.passed input + totalTicks next rest :=
        Exec.total_cons rest returned
      rw [split]
      refine ⟨by rwa [← Nat.add_assoc], fun started => ?_⟩
      have top := raised (by omega)
      rw [now] at top
      rw [List.map_cons, List.foldl_cons, Nat.cast_add, top]
      by_cases forward : this.lastTs < input.p.tvSec
      · rw [passed, if_pos ⟨by omega, forward⟩, clocked.sizeOfTime_diff forward]
        omega
      · rw [passed, if_neg fun both => forward both.2]
        omega

theorem totalTicks_new {evIpv4 evIpv6 : EvId} {inputs : List Input}
    (positive : ∀ input ∈ inputs, 0 < input.p.tvSec)
    (reached : ((ModFlow.new evIpv4 evIpv6).run inputs).result = some after) :
    after.flowTable.table.currTick = sizeT (totalTicks (ModFlow.new evIpv4 evIpv6) inputs) ∧
      ∀ first rest, (inputs.map fun input => input.p.tvSec) = first :: rest →
        (totalTicks (ModFlow.new evIpv4 evIpv6) inputs : ℤ) = rest.foldl max first - first := by
  have kept := Kept.new evIpv4 evIpv6
  have clocked := Clocked.new evIpv4 evIpv6
  have counts : (ModFlow.new evIpv4 evIpv6).flowTable.table.currTick = sizeT 0 := rfl
  obtain ⟨counted, -⟩ := totalTicks_eq kept clocked positive counts reached
  rw [Nat.zero_add] at counted
  refine ⟨counted, fun first rest same => ?_⟩
  cases inputs with
  | nil => cases same
  | cons input inputs =>
      obtain ⟨rfl, rfl⟩ := List.cons.inj same
      obtain ⟨next, returned, rested⟩ := Exec.bind_result_eq_some.mp reached
      obtain ⟨here, later⟩ := List.forall_mem_cons.mp positive
      obtain ⟨now, clockedNext, counted⟩ := recv_currTick kept clocked here counts returned
      have started : next.lastTs = input.p.tvSec := now.trans (max_eq_right (Int.le_of_lt here))
      obtain ⟨-, raised⟩ := totalTicks_eq (kept.recv returned) clockedNext later counted rested
      have split : totalTicks (ModFlow.new evIpv4 evIpv6) (input :: inputs) =
          0 + totalTicks next inputs := Exec.total_cons inputs returned
      rw [split, Nat.zero_add, raised (started ▸ here), started]

end ModFlow

/-- The two totals are the same, and are how far the latest second lies after the first
one. -/
structure SameClock (seconds : List ℤ) (dnsTicks flowTicks : ℕ) : Prop where
  same : dnsTicks = flowTicks
  exact : ∀ first rest, seconds = first :: rest → (dnsTicks : ℤ) = rest.foldl max first - first

/-- Every second that is later than the one before it comes after the latest second so
far. -/
def Climbs : List ℤ → Prop
  | [] => True
  | first :: rest => Climbing first first rest

instance : DecidablePred Climbs
  | [] => instDecidableTrue
  | first :: rest => decidableClimbing first first rest

theorem Climbs.take {seconds : List ℤ} (climbs : Climbs seconds) (n : ℕ) :
    Climbs (seconds.take n) := by
  cases seconds with
  | nil =>
      rw [List.take_nil]
      trivial
  | cons first rest =>
      cases n with
      | zero => trivial
      | succ n => exact Climbing.take climbs n

/-- After packets whose seconds climb, the two totals are those of one clock. -/
theorem Climbs.sameClock {seconds : List ℤ} (climbs : Climbs seconds) {evIpv4 evIpv6 : EvId}
    {dnsCalls : List ModDns.Input} {flowCalls : List ModFlow.Input}
    (dnsSeconds : (dnsCalls.map fun input => input.p.tvSec) = seconds)
    (flowSeconds : (flowCalls.map fun input => input.p.tvSec) = seconds)
    (positive : ∀ second ∈ seconds, 0 < second) {dns : ModDns} {flow : ModFlow}
    (dnsReached : (ModDns.new.run dnsCalls).result = some dns)
    (flowReached : ((ModFlow.new evIpv4 evIpv6).run flowCalls).result = some flow) :
    SameClock seconds (ModDns.totalTicks .new dnsCalls)
      (ModFlow.totalTicks (.new evIpv4 evIpv6) flowCalls) := by
  obtain ⟨-, rising⟩ := ModDns.totalTicks_new (fun input member =>
    positive _ (dnsSeconds ▸ List.mem_map_of_mem member)) dnsReached
  obtain ⟨-, raised⟩ := ModFlow.totalTicks_new (fun input member =>
    positive _ (flowSeconds ▸ List.mem_map_of_mem member)) flowReached
  cases seconds with
  | nil =>
      rw [List.map_eq_nil_iff.mp dnsSeconds, List.map_eq_nil_iff.mp flowSeconds]
      exact ⟨rfl, nofun⟩
  | cons first rest =>
      have exact := (rises_eq_iff (le_refl first) rest).2.mpr climbs
      rw [← rising first rest dnsSeconds, ← raised first rest flowSeconds] at exact
      refine ⟨(Int.ofNat.inj exact).symm, fun other others same => ?_⟩
      obtain ⟨rfl, rfl⟩ := List.cons.inj same
      rw [← raised first rest flowSeconds]
      exact exact.symm

/-- **When the two modules keep the same clock.** For packets of the same positive
seconds in any order, the tables count what the modules pass to them; and after every
packet both modules have passed as many ticks as the latest second lies after the first
one, if and only if every second that is later than the one before it comes after the
latest second so far. -/
theorem clocks_agree_iff (evIpv4 evIpv6 : EvId) (dnsCalls : List ModDns.Input)
    (flowCalls : List ModFlow.Input) (seconds : List ℤ)
    (dnsSeconds : (dnsCalls.map fun input => input.p.tvSec) = seconds)
    (flowSeconds : (flowCalls.map fun input => input.p.tvSec) = seconds)
    (positive : ∀ second ∈ seconds, 0 < second) (dns : ModDns) (flow : ModFlow)
    (dnsReached : (ModDns.new.run dnsCalls).result = some dns)
    (flowReached : ((ModFlow.new evIpv4 evIpv6).run flowCalls).result = some flow) :
    dns.Counts (ModDns.totalTicks .new dnsCalls) ∧
    flow.flowTable.table.currTick = sizeT (ModFlow.totalTicks (.new evIpv4 evIpv6) flowCalls) ∧
    ((∀ n, SameClock (seconds.take n) (ModDns.totalTicks .new (dnsCalls.take n))
        (ModFlow.totalTicks (.new evIpv4 evIpv6) (flowCalls.take n))) ↔
      Climbs seconds) := by
  have dnsPositive : ∀ input ∈ dnsCalls, 0 < input.p.tvSec := fun input member =>
    positive _ (dnsSeconds ▸ List.mem_map_of_mem member)
  have flowPositive : ∀ input ∈ flowCalls, 0 < input.p.tvSec := fun input member =>
    positive _ (flowSeconds ▸ List.mem_map_of_mem member)
  obtain ⟨dnsCounts, rising⟩ := ModDns.totalTicks_new dnsPositive dnsReached
  obtain ⟨flowCounts, -⟩ := ModFlow.totalTicks_new flowPositive flowReached
  refine ⟨dnsCounts, flowCounts, fun agree => ?_, fun climbs n => ?_⟩
  · cases seconds with
    | nil => trivial
    | cons first rest =>
        have same := (agree (first :: rest).length).exact first rest List.take_length
        rw [List.take_of_length_le (by rw [← dnsSeconds, List.length_map])] at same
        rw [rising first rest dnsSeconds] at same
        exact (rises_eq_iff (le_refl first) rest).2.mp same.symm
  · obtain ⟨_, dnsReached⟩ := Exec.exists_run_take dnsReached n
    obtain ⟨_, flowReached⟩ := Exec.exists_run_take flowReached n
    refine (climbs.take n).sameClock ?_ ?_ ?_ dnsReached flowReached
    · rw [List.map_take, dnsSeconds]
    · rw [List.map_take, flowSeconds]
    · exact fun second member => positive second (List.mem_of_mem_take member)

/-- A second, a step backwards and the same second again. -/
def detour : List UInt32 := [10, 5, 10]

/-- `ModDns` passes five ticks to its tables, although the latest second is the first
one, which is all that `ModFlow` sees. -/
theorem detour_not_same : (∃ dns flow,
    (ModDns.new.run (detour.map fun second => ⟨ModDns.blank, ModDns.sampleQuery second⟩)).result =
      some dns ∧
    ((ModFlow.new 4 6).run (detour.map fun second => .sample second 1)).result = some flow ∧
    dns.queryTable.table.currTick = 5 ∧ flow.flowTable.table.currTick = 0) ∧
    ¬ SameClock (detour.map fun second => (second.toNat : ℤ))
      (ModDns.totalTicks .new (detour.map fun second => ⟨ModDns.blank, ModDns.sampleQuery second⟩))
      (ModFlow.totalTicks (.new 4 6) (detour.map fun second => .sample second 1)) := by
  have totals : ModDns.totalTicks .new
        (detour.map fun second => ⟨ModDns.blank, ModDns.sampleQuery second⟩) = 5 ∧
      ModFlow.totalTicks (.new 4 6) (detour.map fun second => .sample second 1) = 0 := by
    decide +kernel
  have dnsRun : (ModDns.new.run
      (detour.map fun second => ⟨ModDns.blank, ModDns.sampleQuery second⟩)).result.map
        (fun dns => dns.queryTable.table.currTick) = some 5 := by
    decide +kernel
  have flowRun : ((ModFlow.new 4 6).run
      (detour.map fun second => .sample second 1)).result.map
        (fun flow => flow.flowTable.table.currTick) = some 0 := by
    decide +kernel
  obtain ⟨dns, dnsReached, five⟩ := Option.map_eq_some_iff.mp dnsRun
  obtain ⟨flow, flowReached, none⟩ := Option.map_eq_some_iff.mp flowRun
  refine ⟨⟨dns, flow, dnsReached, flowReached, five, none⟩, fun same => ?_⟩
  have equal := same.same
  rw [totals.1, totals.2] at equal
  cases equal

theorem clocks_agree_iff_sample :
    SameClock [5, 10, 10, 12]
      (ModDns.totalTicks .new ([5, 10, 10, 12].map fun second =>
        (⟨ModDns.blank, ModDns.sampleQuery second⟩ : ModDns.Input)))
      (ModFlow.totalTicks (.new 4 6) ([5, 10, 10, 12].map fun second =>
        ModFlow.Input.sample second 1)) := by
  have dnsRun : (ModDns.new.run ([5, 10, 10, 12].map fun second =>
      ⟨ModDns.blank, ModDns.sampleQuery second⟩)).result.isSome := by
    decide +kernel
  have flowRun : ((ModFlow.new 4 6).run ([5, 10, 10, 12].map fun second =>
      .sample second 1)).result.isSome := by
    decide +kernel
  obtain ⟨dns, dnsReached⟩ := Option.isSome_iff_exists.mp dnsRun
  obtain ⟨flow, flowReached⟩ := Option.isSome_iff_exists.mp flowRun
  exact (clocks_agree_iff 4 6 _ _ [5, 10, 10, 12] (by decide) (by decide) (by decide) dns flow
    dnsReached flowReached).2.2.mpr (by decide) 4

end Devourer
