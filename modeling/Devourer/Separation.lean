import Devourer.Modules.Dns.Transactions
import Devourer.Modules.Flow.Conversations
import Devourer.Program

/-! # Who depends on whom

The modules share a decoder and a logger, and the flow module asks the DNS module for names.
Beyond that they do not affect each other: what the DNS module reports is what it reports for
its packets alone, ARP requests are reported one by one, and what is reported of flows depends
on other packets in the names only (`run_separates`, `flows_ignore_names`).
-/

set_option linter.dupNamespace false

namespace Devourer

namespace Report

def dns? : Report → Option DnsEvent
  | .dns event => some event
  | _ => none

def flow? : Report → Option FlowEvent
  | .flow event => some event
  | _ => none

def loc? : Report → Option LocalEvent
  | .loc event => some event
  | _ => none

end Report

namespace NetDec

/-- What is handed to the DNS module. -/
def dnsInputs (netdec : NetDec) (events : List Decoded) : List ModDns.Input :=
  (events.filter fun event => netdec.route event.eid = some .modDns).map fun event =>
    ⟨event.memory, event.p⟩

/-- What is handed to the flow module, with the DNS module as it is by then. -/
def flowInputs (netdec : NetDec) : ModDns → List Decoded → List ModFlow.Input
  | _, [] => []
  | dns, event :: rest =>
      match netdec.route event.eid with
      | some .modDns =>
          match (dns.recv event.memory event.p).result with
          | none => []
          | some dns => netdec.flowInputs dns rest
      | some .modFlow => ⟨dns, event.eid, event.p⟩ :: netdec.flowInputs dns rest
      | _ => netdec.flowInputs dns rest

/-- The messages for the ARP requests. -/
def arpMessages (netdec : NetDec) (events : List Decoded) : List LocalEvent :=
  (events.filter fun event => event.eid = netdec.lookupEventId "arp.request").map fun event =>
    .arpRequest (ModLocal.arpMessage event.p event.arp)

end NetDec

namespace Monitor

variable {netdec : NetDec} {this after : Monitor}

/-- The local module knows the id of ARP requests. -/
def Knows (netdec : NetDec) (this : Monitor) : Prop :=
  this.loc.recvEventsId[ModLocal.arpRequest]? = some (netdec.lookupEventId "arp.request")

/-- An event for the DNS module. -/
theorem recv_dns {event : Decoded} (routed : netdec.route event.eid = some .modDns) :
    this.recv netdec event = ⟨(this.dns.recv event.memory event.p).events.map .dns,
      (this.dns.recv event.memory event.p).result.map fun dns => { this with dns := dns }⟩ := by
  unfold recv
  rw [routed]
  exact Exec.mapEvents_bind_pure ..

/-- An event for the flow module, which asks the DNS module for names. -/
theorem recv_flow {event : Decoded} (routed : netdec.route event.eid = some .modFlow) :
    this.recv netdec event = ⟨(this.flow.recv this.dns event.eid event.p).events.map .flow,
      (this.flow.recv this.dns event.eid event.p).result.map fun flow =>
        { this with flow := flow }⟩ := by
  unfold recv
  rw [routed]
  exact Exec.mapEvents_bind_pure ..

/-- ARP requests are for the local module. -/
theorem arp_routed (distinct : netdec.Distinct) {eid : EvId}
    (arp : eid = netdec.lookupEventId "arp.request") : netdec.route eid = some .modLocal := by
  subst arp
  unfold NetDec.Distinct at distinct
  unfold NetDec.route
  simp only [ModuleId.installed, ModuleId.recvEvent, ModLocal.recvEvents, List.flatMap_cons,
    List.flatMap_nil, List.map_cons, List.map_nil, List.cons_append, List.nil_append,
    List.nodup_cons, List.mem_cons, List.not_mem_nil, not_or, or_false, not_false_eq_true,
    List.nodup_nil, and_true] at distinct ⊢
  obtain ⟨⟨-, -, dns, -⟩, ⟨-, ipv4, -⟩, ⟨ipv6, -⟩, -⟩ := distinct
  rw [if_neg (Ne.symm dns), if_neg (not_or.mpr ⟨Ne.symm ipv4, Ne.symm ipv6⟩)]
  simp only [true_or, ↓reduceIte]

/-- An event that is not for the other modules leaves all as it is. -/
theorem recv_other {event : Decoded} (knows : this.Knows netdec)
    (distinct : netdec.Distinct) (notDns : netdec.route event.eid ≠ some .modDns)
    (notFlow : netdec.route event.eid ≠ some .modFlow) :
    this.recv netdec event = ⟨(netdec.arpMessages [event]).map .loc, some this⟩ := by
  unfold recv NetDec.arpMessages
  cases routed : netdec.route event.eid with
  | none =>
      have other : event.eid ≠ netdec.lookupEventId "arp.request" := fun arp => by
        rw [arp_routed distinct arp] at routed
        cases routed
      simp only [List.filter_cons, other, decide_false, Bool.false_eq_true, ↓reduceIte,
        List.filter_nil]
      rfl
  | some id =>
      cases id with
      | modDns => exact (notDns routed).elim
      | modFlow => exact (notFlow routed).elim
      | modLocal =>
          unfold hand ModLocal.recv
          rw [knows]
          by_cases arp : event.eid = netdec.lookupEventId "arp.request"
          · simp only [arp, ↓reduceIte, List.filter_cons, decide_true, List.filter_nil]
            rfl
          · have other : ¬ some (netdec.lookupEventId "arp.request") = some event.eid :=
              fun same => arp (Option.some.inj same).symm
            simp only [other, arp, ↓reduceIte, List.filter_cons, decide_false, Bool.false_eq_true,
              List.filter_nil]
            rfl

/-- The run on the events is made up of those of the modules on theirs. -/
structure Separates (netdec : NetDec) (events : List Decoded) (this : Monitor)
    (outcome : Exec Report Monitor) : Prop where
  returns : outcome.result.isSome ↔
    (this.dns.run (netdec.dnsInputs events)).result.isSome ∧
      (this.flow.run (netdec.flowInputs this.dns events)).result.isSome
  dns : ∀ after, outcome.result = some after → this.dns.run (netdec.dnsInputs events) =
    ⟨outcome.events.filterMap Report.dns?, some after.dns⟩
  flow : ∀ after, outcome.result = some after →
    this.flow.run (netdec.flowInputs this.dns events) =
      ⟨outcome.events.filterMap Report.flow?, some after.flow⟩
  loc : ∀ after, outcome.result = some after →
    netdec.arpMessages events = outcome.events.filterMap Report.loc?

variable {events rest : List Decoded} {event : Decoded} {outcome : Exec Report Monitor}

/-- An event for another module is no ARP request. -/
theorem arpMessages_of_routed {id : ModuleId} (distinct : netdec.Distinct)
    (routed : netdec.route event.eid = some id) (other : id ≠ .modLocal) :
    netdec.arpMessages (event :: rest) = netdec.arpMessages rest := by
  have different : event.eid ≠ netdec.lookupEventId "arp.request" := fun arp => by
    rw [arp_routed distinct arp] at routed
    exact other (Option.some.inj routed).symm
  unfold NetDec.arpMessages
  simp only [List.filter_cons, different, decide_false, Bool.false_eq_true, ↓reduceIte]

/-- The reports of the DNS module, before others. -/
theorem seen_dns (events : List DnsEvent) (rest : List Report) :
    (events.map Report.dns ++ rest).filterMap Report.dns? =
        events ++ rest.filterMap Report.dns? ∧
      (events.map Report.dns ++ rest).filterMap Report.flow? = rest.filterMap Report.flow? ∧
      (events.map Report.dns ++ rest).filterMap Report.loc? = rest.filterMap Report.loc? := by
  simp [List.filterMap_append, List.filterMap_map, Function.comp_def, Report.dns?, Report.flow?,
    Report.loc?]

/-- The reports of the flow module, before others. -/
theorem seen_flow (events : List FlowEvent) (rest : List Report) :
    (events.map Report.flow ++ rest).filterMap Report.dns? = rest.filterMap Report.dns? ∧
      (events.map Report.flow ++ rest).filterMap Report.flow? =
        events ++ rest.filterMap Report.flow? ∧
      (events.map Report.flow ++ rest).filterMap Report.loc? = rest.filterMap Report.loc? := by
  simp [List.filterMap_append, List.filterMap_map, Function.comp_def, Report.dns?, Report.flow?,
    Report.loc?]

/-- The reports of the local module, before others. -/
theorem seen_loc (events : List LocalEvent) (rest : List Report) :
    (events.map Report.loc ++ rest).filterMap Report.dns? = rest.filterMap Report.dns? ∧
      (events.map Report.loc ++ rest).filterMap Report.flow? = rest.filterMap Report.flow? ∧
      (events.map Report.loc ++ rest).filterMap Report.loc? =
        events ++ rest.filterMap Report.loc? := by
  simp [List.filterMap_append, List.filterMap_map, Function.comp_def, Report.dns?, Report.flow?,
    Report.loc?]

/-- A DNS packet in front. -/
theorem Separates.dnsPacket (distinct : netdec.Distinct)
    (routed : netdec.route event.eid = some .modDns) {dns : ModDns}
    (handled : (this.dns.recv event.memory event.p).result = some dns)
    (separates : Separates netdec rest { this with dns := dns } outcome) :
    Separates netdec (event :: rest) this
      ⟨(this.dns.recv event.memory event.p).events.map .dns ++ outcome.events, outcome.result⟩ := by
  obtain ⟨seenDns, seenFlow, seenLoc⟩ :=
    seen_dns (this.dns.recv event.memory event.p).events outcome.events
  have inputs : netdec.dnsInputs (event :: rest) =
      ⟨event.memory, event.p⟩ :: netdec.dnsInputs rest := by
    unfold NetDec.dnsInputs
    simp only [List.filter_cons, routed, decide_true, ↓reduceIte, List.map_cons]
  have flows : netdec.flowInputs this.dns (event :: rest) = netdec.flowInputs dns rest := by
    rw [NetDec.flowInputs, routed]
    simp only [handled]
  have runs : this.dns.run (netdec.dnsInputs (event :: rest)) =
      ⟨(this.dns.recv event.memory event.p).events ++ (dns.run (netdec.dnsInputs rest)).events,
        (dns.run (netdec.dnsInputs rest)).result⟩ := by
    rw [inputs]
    exact Exec.bind_of_result handled
  constructor
  · rw [runs, flows]
    exact separates.returns
  · intro after returned
    rw [runs, seenDns, separates.dns after returned]
  · intro after returned
    rw [flows, seenFlow, ← separates.flow after returned]
  · intro after returned
    rw [arpMessages_of_routed distinct routed (by decide), seenLoc, separates.loc after returned]

/-- An IP packet in front. -/
theorem Separates.ipPacket (distinct : netdec.Distinct)
    (routed : netdec.route event.eid = some .modFlow) {flow : ModFlow}
    (handled : (this.flow.recv this.dns event.eid event.p).result = some flow)
    (separates : Separates netdec rest { this with flow := flow } outcome) :
    Separates netdec (event :: rest) this
      ⟨(this.flow.recv this.dns event.eid event.p).events.map .flow ++ outcome.events,
        outcome.result⟩ := by
  obtain ⟨seenDns, seenFlow, seenLoc⟩ :=
    seen_flow (this.flow.recv this.dns event.eid event.p).events outcome.events
  have inputs : netdec.dnsInputs (event :: rest) = netdec.dnsInputs rest := by
    unfold NetDec.dnsInputs
    rw [List.filter_cons_of_neg (by simp [routed])]
  have flows : netdec.flowInputs this.dns (event :: rest) =
      ⟨this.dns, event.eid, event.p⟩ :: netdec.flowInputs this.dns rest := by
    rw [NetDec.flowInputs, routed]
  have runs : this.flow.run (netdec.flowInputs this.dns (event :: rest)) =
      ⟨(this.flow.recv this.dns event.eid event.p).events ++
        (flow.run (netdec.flowInputs this.dns rest)).events,
        (flow.run (netdec.flowInputs this.dns rest)).result⟩ := by
    rw [flows]
    exact Exec.bind_of_result handled
  constructor
  · rw [inputs, runs]
    exact separates.returns
  · intro after returned
    rw [inputs, seenDns, ← separates.dns after returned]
  · intro after returned
    rw [runs, seenFlow, separates.flow after returned]
  · intro after returned
    rw [arpMessages_of_routed distinct routed (by decide), seenLoc, separates.loc after returned]

/-- Any other event in front. -/
theorem Separates.other (notDns : netdec.route event.eid ≠ some .modDns)
    (notFlow : netdec.route event.eid ≠ some .modFlow)
    (separates : Separates netdec rest this outcome) :
    Separates netdec (event :: rest) this
      ⟨(netdec.arpMessages [event]).map .loc ++ outcome.events, outcome.result⟩ := by
  obtain ⟨seenDns, seenFlow, seenLoc⟩ := seen_loc (netdec.arpMessages [event]) outcome.events
  have inputs : netdec.dnsInputs (event :: rest) = netdec.dnsInputs rest := by
    unfold NetDec.dnsInputs
    rw [List.filter_cons_of_neg (by simp [notDns])]
  have flows : netdec.flowInputs this.dns (event :: rest) = netdec.flowInputs this.dns rest := by
    rw [NetDec.flowInputs]
    split
    · rename_i routed
      exact (notDns routed).elim
    · rename_i routed
      exact (notFlow routed).elim
    · rfl
  have arps : netdec.arpMessages (event :: rest) =
      netdec.arpMessages [event] ++ netdec.arpMessages rest := by
    unfold NetDec.arpMessages
    rw [← List.map_append, ← List.filter_append, List.singleton_append]
  constructor
  · rw [inputs, flows]
    exact separates.returns
  · intro after returned
    rw [inputs, seenDns, ← separates.dns after returned]
  · intro after returned
    rw [flows, seenFlow, ← separates.flow after returned]
  · intro after returned
    rw [arps, seenLoc, separates.loc after returned]

/-- Without events nothing happens. -/
theorem Separates.nil : Separates netdec [] this (pure this) where
  returns := iff_of_true rfl ⟨rfl, rfl⟩
  dns := by
    rintro after ⟨⟩
    rfl
  flow := by
    rintro after ⟨⟩
    rfl
  loc _ _ := rfl

/-- An abort of one of the modules. -/
theorem Separates.aborted {reports : List Report}
    (aborts : (this.dns.run (netdec.dnsInputs events)).result = none ∨
      (this.flow.run (netdec.flowInputs this.dns events)).result = none) :
    Separates netdec events this ⟨reports, none⟩ where
  returns := by
    refine iff_of_false Bool.false_ne_true ?_
    rintro ⟨dns, flow⟩
    rcases aborts with none | none
    · rw [none] at dns
      cases dns
    · rw [none] at flow
      cases flow
  dns := nofun
  flow := nofun
  loc := nofun

/-- **A run separates.** -/
theorem separates_run (distinct : netdec.Distinct) (events : List Decoded) {this : Monitor}
    (knows : this.Knows netdec) : Separates netdec events this (this.run netdec events) := by
  induction events generalizing this with
  | nil => exact .nil
  | cons event rest ih =>
      change Separates netdec (event :: rest) this
        (this.recv netdec event >>= fun next => next.run netdec rest)
      by_cases toDns : netdec.route event.eid = some .modDns
      · rw [recv_dns toDns]
        cases handled : (this.dns.recv event.memory event.p).result with
        | none =>
            rw [Option.map_none, Exec.bind_of_abort rfl]
            apply Separates.aborted
            left
            unfold NetDec.dnsInputs
            rw [List.filter_cons_of_pos (by simp [toDns])]
            exact congrArg Exec.result (Exec.bind_of_abort handled)
        | some dns =>
            rw [Option.map_some, Exec.bind_of_result rfl]
            have next : ({ this with dns := dns } : Monitor).Knows netdec := knows
            exact (ih next).dnsPacket distinct toDns handled
      by_cases toFlow : netdec.route event.eid = some .modFlow
      · rw [recv_flow toFlow]
        cases handled : (this.flow.recv this.dns event.eid event.p).result with
        | none =>
            rw [Option.map_none, Exec.bind_of_abort rfl]
            apply Separates.aborted
            right
            rw [NetDec.flowInputs, toFlow]
            exact congrArg Exec.result (Exec.bind_of_abort handled)
        | some flow =>
            rw [Option.map_some, Exec.bind_of_result rfl]
            have next : ({ this with flow := flow } : Monitor).Knows netdec := knows
            exact (ih next).ipPacket distinct toFlow handled
      · rw [recv_other knows distinct toDns toFlow, Exec.bind_of_result rfl]
        exact (ih knows).other toDns toFlow

end Monitor

/-! ## The packets of a key -/

namespace NetDec

/-- The IP packets, with their events. -/
def ipEvents (netdec : NetDec) (events : List Decoded) : List (EvId × Property) :=
  (events.filter fun event => netdec.route event.eid = some .modFlow).map fun event =>
    (event.eid, event.p)

/-- The DNS packets with the key. -/
def dnsPackets (netdec : NetDec) (key : QueryKey) (events : List Decoded) : List Property :=
  (events.filter fun event => netdec.route event.eid = some .modDns ∧
    ModDns.keyOf event.p = key).map Decoded.p

/-- The IP packets with the key. -/
def ipPackets (netdec : NetDec) (key : FlowKey) (events : List Decoded) : List Property :=
  (events.filter fun event => netdec.route event.eid = some .modFlow ∧
    ModFlow.keyOf event.p = key).map Decoded.p

variable {netdec : NetDec} {dns after : ModDns} {events : List Decoded}

/-- The packets of a DNS key, among the events. -/
theorem ownPackets_dnsInputs (key : QueryKey) (events : List Decoded) :
    ModDns.ownPackets key (netdec.dnsInputs events) = netdec.dnsPackets key events := by
  unfold ModDns.ownPackets dnsInputs dnsPackets
  rw [List.map_map, List.filter_map, List.filter_filter]
  simp only [Bool.decide_and, Function.comp_def, Bool.and_comm]

/-- The flow module is handed the IP packets, as long as the DNS module returns. -/
theorem flowInputs_map {β : Type} (read : EvId → Property → β)
    (returns : (dns.run (netdec.dnsInputs events)).result = some after) :
    ((netdec.flowInputs dns events).map fun input => read input.eid input.p) =
      (events.filter fun event => netdec.route event.eid = some .modFlow).map fun event =>
        read event.eid event.p := by
  induction events generalizing dns with
  | nil => rfl
  | cons event rest ih =>
      unfold dnsInputs at returns ih
      unfold flowInputs
      by_cases toDns : netdec.route event.eid = some .modDns
      · rw [List.filter_cons_of_pos (by simp [toDns]), List.map_cons] at returns
        obtain ⟨middle, handled, returns⟩ := Exec.bind_result_eq_some.mp returns
        rw [List.filter_cons_of_neg (by simp [toDns]), toDns]
        simp only [handled]
        exact ih returns
      rw [List.filter_cons_of_neg (by simp [toDns])] at returns
      by_cases toFlow : netdec.route event.eid = some .modFlow
      · rw [List.filter_cons_of_pos (by simp [toFlow]), toFlow]
        exact congrArg _ (ih returns)
      · rw [List.filter_cons_of_neg (by simp [toFlow])]
        split
        · rename_i routed
          exact (toDns routed).elim
        · rename_i routed
          exact (toFlow routed).elim
        · exact ih returns

/-- A packet is routed to the flow module for its event. -/
theorem ip_of_route {eid : EvId} (routed : netdec.route eid = some .modFlow) :
    eid = netdec.lookupEventId "ipv4.packet" ∨ eid = netdec.lookupEventId "ipv6.packet" := by
  unfold route at routed
  split at routed
  · cases routed
  · split at routed
    · assumption
    · split at routed <;> cases routed

/-- What the lane of a key sees of an IP packet. -/
def glimpse (netdec : NetDec) (key : FlowKey) (seen : EvId × Property) : ModFlow.Glimpse :=
  ModFlow.glimpse (netdec.lookupEventId "ipv4.packet") (netdec.lookupEventId "ipv6.packet") key
    ⟨ModDns.new, seen.1, seen.2⟩

/-- What a flow key sees of the IP packets does not depend on the DNS module. -/
theorem glimpses_flowInputs (key : FlowKey)
    (returns : (dns.run (netdec.dnsInputs events)).result = some after) :
    (netdec.flowInputs dns events).map (ModFlow.glimpse (netdec.lookupEventId "ipv4.packet")
        (netdec.lookupEventId "ipv6.packet") key) =
      (netdec.ipEvents events).map (netdec.glimpse key) := by
  have same := flowInputs_map (fun eid p => netdec.glimpse key (eid, p)) returns
  unfold ipEvents
  rw [List.map_map]
  exact same

/-- The packets of a flow key, among the events. -/
theorem ownPackets_flowInputs (key : FlowKey)
    (returns : (dns.run (netdec.dnsInputs events)).result = some after) :
    ModFlow.ownPackets (netdec.lookupEventId "ipv4.packet") (netdec.lookupEventId "ipv6.packet") key
      (netdec.flowInputs dns events) = netdec.ipPackets key events := by
  unfold ModFlow.ownPackets ipPackets
  rw [glimpses_flowInputs key returns]
  unfold ipEvents
  clear returns
  induction events with
  | nil => rfl
  | cons event rest ih =>
      by_cases routed : netdec.route event.eid = some .modFlow
      · have shown : (netdec.glimpse key (event.eid, event.p)).own =
            if ModFlow.keyOf event.p = key then some event.p else none := by
          unfold glimpse ModFlow.glimpse
          simp only [ip_of_route routed, true_and]
        by_cases own : ModFlow.keyOf event.p = key <;> simpa [routed, shown, own] using ih
      · simpa [List.filter_cons, routed] using ih

/-- What holds of the IP packets of a capture holds of those given to the flow module. -/
theorem mem_flowInputs (returns : (dns.run (netdec.dnsInputs events)).result = some after)
    (holds : Property → Prop) (all : ∀ event ∈ events, netdec.route event.eid = some .modFlow →
      holds event.p) : ∀ input ∈ netdec.flowInputs dns events, holds input.p := by
  have same := flowInputs_map (fun _ p => p) returns
  intro input member
  have inside := List.mem_map_of_mem (f := fun input : ModFlow.Input => input.p) member
  rw [same] at inside
  obtain ⟨event, filtered, equal⟩ := List.mem_map.mp inside
  obtain ⟨called, routed⟩ := List.mem_filter.mp filtered
  rw [← equal]
  exact all event called (of_decide_eq_true routed)

/-- The IP packets are as sorted as the capture. -/
theorem sorted_flowInputs (returns : (dns.run (netdec.dnsInputs events)).result = some after)
    (sorted : events.Pairwise fun earlier later => earlier.p.tvSec ≤ later.p.tvSec) :
    ModFlow.Sorted (netdec.flowInputs dns events) := by
  have same := flowInputs_map (fun _ p => p.tvSec) returns
  have filtered := sorted.sublist (List.filter_sublist (p := fun event : Decoded =>
    netdec.route event.eid = some .modFlow))
  unfold ModFlow.Sorted
  rw [← List.pairwise_map (f := fun input : ModFlow.Input => input.p.tvSec), same,
    List.pairwise_map]
  exact filtered

end NetDec

namespace Devourer

variable {netdec : NetDec} {this : Devourer} {calls : List Call}

/-- The program separates as its modules do. -/
theorem separates (distinct : netdec.Distinct) {evIpv4 evIpv6 : EvId}
    (built : new netdec evIpv4 evIpv6 = some this) (set : LoggerSet (this.run calls).events) :
    Monitor.Separates netdec (calls.flatMap Call.decoded) (Monitor.new netdec)
      (Exec.view DevourerEvent.report? monitor (this.run calls)) := by
  obtain ⟨plugged, same⟩ := Plugged.new built
  rw [plugged.run distinct set, same]
  exact Monitor.separates_run distinct _ rfl

/-- **The modules are separate.** Over public calls in which every use of the logger finds it
set, the program returns exactly if the DNS module returns from its packets alone and the flow
module from its own, with the DNS module as it is at each of them; and then what is reported of
DNS and of flows is what these two report, and there is one message for each ARP request. -/
theorem run_separates (netdec : NetDec) (distinct : netdec.Distinct) (evIpv4 evIpv6 : EvId)
    (this : Devourer) (built : new netdec evIpv4 evIpv6 = some this) (calls : List Call)
    (set : LoggerSet (this.run calls).events) :
    let events := calls.flatMap Call.decoded
    let reports := (this.run calls).events.filterMap DevourerEvent.report?
    let dnsRun := ModDns.new.run (netdec.dnsInputs events)
    let flowRun := (Monitor.new netdec).flow.run (netdec.flowInputs ModDns.new events)
    ((this.run calls).result.isSome ↔ dnsRun.result.isSome ∧ flowRun.result.isSome) ∧
      ∀ after, (this.run calls).result = some after →
        dnsRun = ⟨reports.filterMap Report.dns?, some after.modDns⟩ ∧
        flowRun = ⟨reports.filterMap Report.flow?, some after.modFlow⟩ ∧
        reports.filterMap Report.loc? = netdec.arpMessages events := by
  have separates := separates distinct built set
  have viewed : ∀ after, (this.run calls).result = some after →
      (Exec.view DevourerEvent.report? monitor (this.run calls)).result = some after.monitor := by
    intro after returned
    rw [Exec.view, returned]
    rfl
  refine ⟨?_, fun after returned => ?_⟩
  · rw [← Option.isSome_map (f := monitor)]
    exact separates.returns
  · have seen := viewed after returned
    exact ⟨separates.dns _ seen, separates.flow _ seen, (separates.loc _ seen).symm⟩

/-- Two IP flows, DNS packets and an ARP request. -/
theorem run_separates_sample : ∃ this, new sampleNetDec 0 0 = some this ∧
    ((this.run mixedCalls).result.isSome ↔
      (ModDns.new.run (sampleNetDec.dnsInputs (mixedCalls.flatMap Call.decoded))).result.isSome ∧
        ((Monitor.new sampleNetDec).flow.run (sampleNetDec.flowInputs ModDns.new
          (mixedCalls.flatMap Call.decoded))).result.isSome) := by
  obtain ⟨this, built, set, -⟩ := mixedCalls_set
  exact ⟨this, built,
    (run_separates sampleNetDec (by decide) 0 0 this built mixedCalls set).1⟩

/-- The packets of a capture as they should be: their timestamps are positive and do not step
backwards, DNS queries ask something and answer addresses of four or sixteen bytes, and IP
packets have a direction. -/
structure WellFormed (netdec : NetDec) (events : List Decoded) : Prop where
  sorted : events.Pairwise fun earlier later => earlier.p.tvSec ≤ later.p.tvSec
  positive : ∀ event ∈ events, 0 < event.p.tvSec
  proper : ∀ event ∈ events, netdec.route event.eid = some .modDns → ModDns.Proper event.p
  directed : ∀ event ∈ events, netdec.route event.eid = some .modFlow → event.p.dir ≠ .nil

instance (netdec : NetDec) (events : List Decoded) : Decidable (WellFormed netdec events) :=
  decidable_of_iff
    ((events.Pairwise fun earlier later => earlier.p.tvSec ≤ later.p.tvSec) ∧
      (∀ event ∈ events, 0 < event.p.tvSec) ∧
      (∀ event ∈ events, netdec.route event.eid = some .modDns → ModDns.Proper event.p) ∧
      ∀ event ∈ events, netdec.route event.eid = some .modFlow → event.p.dir ≠ .nil)
    ⟨fun all => ⟨all.1, all.2.1, all.2.2.1, all.2.2.2⟩,
      fun wellFormed => ⟨wellFormed.sorted, wellFormed.positive, wellFormed.proper,
        wellFormed.directed⟩⟩

/-- The DNS packets of a well-formed capture are in order and proper. -/
theorem WellFormed.dns {events : List Decoded} (wellFormed : WellFormed netdec events) :
    ModDns.Ordered (netdec.dnsInputs events) ∧
      ∀ input ∈ netdec.dnsInputs events, ModDns.Proper input.p := by
  unfold NetDec.dnsInputs
  refine ⟨⟨?_, ?_⟩, ?_⟩
  · rw [List.pairwise_map]
    exact wellFormed.sorted.sublist List.filter_sublist
  · intro input member
    obtain ⟨event, filtered, rfl⟩ := List.mem_map.mp member
    exact wellFormed.positive event (List.mem_filter.mp filtered).1
  · intro input member
    obtain ⟨event, filtered, rfl⟩ := List.mem_map.mp member
    obtain ⟨called, routed⟩ := List.mem_filter.mp filtered
    exact wellFormed.proper event called (of_decide_eq_true routed)

/-- What is to be reported of packets: the transactions of each DNS key, the conversations of
each flow key, names aside, and the ARP requests. -/
structure Delivers (netdec : NetDec) (events : List Decoded) (reports : List Report) : Prop where
  dns (key : QueryKey) : (reports.filterMap Report.dns?).filterMap (ModDns.report key) =
    (ModDns.Exchange.run ⟨none⟩ (netdec.dnsPackets key events)).events
  flow (key : FlowKey) : ∃ parts : ModFlow.Conversations,
    parts.packets = netdec.ipPackets key events ∧
      (reports.filterMap Report.flow?).filterMap (ModFlow.report key) = parts.told
  loc : reports.filterMap Report.loc? = netdec.arpMessages events

/-- What the modules report of a well-formed capture. -/
theorem WellFormed.delivers {events : List Decoded} (wellFormed : WellFormed netdec events)
    (distinct : netdec.Distinct) :
    ((Monitor.new netdec).run netdec events).result.isSome ∧
      Delivers netdec events ((Monitor.new netdec).run netdec events).events := by
  have separates : Monitor.Separates netdec events (Monitor.new netdec)
      ((Monitor.new netdec).run netdec events) := Monitor.separates_run distinct events rfl
  obtain ⟨ordered, proper⟩ := wellFormed.dns
  obtain ⟨dns, dnsReturns⟩ := ModDns.exists_run proper
  have sorted := NetDec.sorted_flowInputs dnsReturns wellFormed.sorted
  have valid : ∀ input ∈ netdec.flowInputs ModDns.new events, ModFlow.Valid input := by
    apply NetDec.mem_flowInputs dnsReturns fun p => 0 < p.tvSec ∧ p.dir ≠ .nil
    exact fun event called routed =>
      ⟨wellFormed.positive event called, wellFormed.directed event called routed⟩
  have accounts := fun key => ModFlow.exists_accounts (netdec.lookupEventId "ipv4.packet")
    (netdec.lookupEventId "ipv6.packet") key sorted valid
  have returns : ((Monitor.new netdec).run netdec events).result.isSome := by
    obtain ⟨flow, -, reached, -⟩ := accounts ⟨0, []⟩
    apply separates.returns.mpr
    exact ⟨Option.isSome_of_eq_some dnsReturns, Option.isSome_of_eq_some reached⟩
  obtain ⟨after, returned⟩ := Option.isSome_iff_exists.mp returns
  have dnsEvents := congrArg Exec.events (separates.dns after returned)
  have flowEvents := congrArg Exec.events (separates.flow after returned)
  refine ⟨returns, fun key => ?_, fun key => ?_, (separates.loc after returned).symm⟩
  · rw [← NetDec.ownPackets_dnsInputs, ← ModDns.filterMap_glimpse,
      ← (ModDns.before_new key ordered).run.events, ← ModDns.run_reports_eq key proper]
    exact congrArg _ dnsEvents.symm
  · obtain ⟨flow, parts, -, account, -⟩ := accounts key
    refine ⟨parts, ?_, ?_⟩
    · rw [account.packets, NetDec.ownPackets_flowInputs key dnsReturns]
    · rw [← account.told]
      exact congrArg _ flowEvents.symm

/-- **What the program reports of a well-formed capture.** It returns; its `dns.tx` messages for
a key are those of the exchange of this key, run on the DNS packets with the key; its flow
messages for a key tell of the IP packets with the key in conversations, names aside; and each
ARP request is reported. -/
theorem reports_of_wellFormed (netdec : NetDec) (distinct : netdec.Distinct)
    (evIpv4 evIpv6 : EvId) (this : Devourer) (built : new netdec evIpv4 evIpv6 = some this)
    (calls : List Call) (set : LoggerSet (this.run calls).events)
    (wellFormed : WellFormed netdec (calls.flatMap Call.decoded)) :
    let events := calls.flatMap Call.decoded
    let reports := (this.run calls).events.filterMap DevourerEvent.report?
    (this.run calls).result.isSome ∧
      (∀ key, (reports.filterMap Report.dns?).filterMap (ModDns.report key) =
        (ModDns.Exchange.run ⟨none⟩ (netdec.dnsPackets key events)).events) ∧
      (∀ key, ∃ parts : ModFlow.Conversations, parts.packets = netdec.ipPackets key events ∧
        (reports.filterMap Report.flow?).filterMap (ModFlow.report key) = parts.told) ∧
      reports.filterMap Report.loc? = netdec.arpMessages events := by
  obtain ⟨plugged, same⟩ := Plugged.new built
  have ran := plugged.run distinct set
  rw [same] at ran
  obtain ⟨returns, delivers⟩ := wellFormed.delivers distinct
  rw [← ran] at returns delivers
  rw [Exec.view, Option.isSome_map] at returns
  exact ⟨returns, delivers.dns, delivers.flow, delivers.loc⟩

/-- The program returns on a capture as it should be. -/
theorem reports_of_wellFormed_sample : ∃ this, new sampleNetDec 0 0 = some this ∧
    (this.run mixedCalls).result.isSome := by
  obtain ⟨this, built, set, -⟩ := mixedCalls_set
  exact ⟨this, built, (reports_of_wellFormed sampleNetDec (by decide) 0 0 this built mixedCalls
    set (by decide)).1⟩

/-- **Names are all that flows have of DNS.** Two programs are given the same IP packets, and
whatever else; if both return, having found their loggers set, they report the same of the flow
of every key, names aside, as long as the IP packets with other keys have a direction. -/
theorem flows_ignore_dns (netdec : NetDec) (distinct : netdec.Distinct) (evIpv4 evIpv6 : EvId)
    (this : Devourer) (built : new netdec evIpv4 evIpv6 = some this) (lefts rights : List Call)
    (setLeft : LoggerSet (this.run lefts).events) (setRight : LoggerSet (this.run rights).events)
    (left right : Devourer) (returnsLeft : (this.run lefts).result = some left)
    (returnsRight : (this.run rights).result = some right)
    (same : netdec.ipEvents (lefts.flatMap Call.decoded) =
      netdec.ipEvents (rights.flatMap Call.decoded))
    (key : FlowKey) (directed : ∀ event ∈ netdec.ipEvents (lefts.flatMap Call.decoded),
      ModFlow.keyOf event.2 ≠ key → event.2.dir ≠ .nil) :
    (((this.run lefts).events.filterMap DevourerEvent.report?).filterMap Report.flow?).filterMap
        (ModFlow.report key) =
      (((this.run rights).events.filterMap DevourerEvent.report?).filterMap Report.flow?).filterMap
        (ModFlow.report key) := by
  have flows : ∀ {calls : List Call} {after : Devourer}, LoggerSet (this.run calls).events →
      (this.run calls).result = some after →
      (∀ event ∈ netdec.ipEvents (calls.flatMap Call.decoded),
        ModFlow.keyOf event.2 ≠ key → event.2.dir ≠ .nil) →
      (((this.run calls).events.filterMap DevourerEvent.report?).filterMap
          Report.flow?).filterMap (ModFlow.report key) =
        (Exec.outputs (fun lane seen => ModFlow.Lane.recv seen lane) ModFlow.Lane.new
          ((netdec.ipEvents (calls.flatMap Call.decoded)).map (netdec.glimpse key))).flatten := by
    intro calls after set returned directed
    have separates := separates distinct built set
    have seen : (Exec.view DevourerEvent.report? monitor (this.run calls)).result =
        some after.monitor := by
      rw [Exec.view, returned]
      rfl
    have returns := congrArg Exec.result (separates.dns _ seen)
    have inputs := NetDec.mem_flowInputs returns
      (fun p => ModFlow.keyOf p ≠ key → p.dir ≠ .nil) fun event called routed =>
        directed (event.eid, event.p) (List.mem_map.mpr ⟨event, List.mem_filter.mpr
          ⟨called, decide_eq_true routed⟩, rfl⟩)
    have lanes := congrArg List.flatten (ModFlow.reports_eq_lane
      (netdec.lookupEventId "ipv4.packet") (netdec.lookupEventId "ipv6.packet") key _ inputs)
    rw [ModFlow.outputs, ← List.filterMap_flatten, ← Exec.run_events,
      NetDec.glimpses_flowInputs key returns] at lanes
    exact (congrArg (List.filterMap (ModFlow.report key))
      (congrArg Exec.events (separates.flow _ seen))).symm.trans lanes
  rw [flows setLeft returnsLeft directed, flows setRight returnsRight (same ▸ directed), same]

/-- The IP packets without the others. -/
def undisturbed : List Call :=
  [.start sampleNetCap, .input ((captured.flatten ++ handedOver).filter (·.eid = 4))]

/-- The IP packets with and without the DNS queries; the flow is logged. -/
theorem flows_ignore_dns_sample : ∃ this, new sampleNetDec 0 0 = some this ∧
    (((this.run mixedCalls).events.filterMap DevourerEvent.report?).filterMap
        Report.flow?).filterMap (ModFlow.report ⟨1, []⟩) =
      (((this.run undisturbed).events.filterMap DevourerEvent.report?).filterMap
        Report.flow?).filterMap (ModFlow.report ⟨1, []⟩) := by
  have computed : (new sampleNetDec 0 0).map (fun this =>
      decide (LoggerSet (this.run mixedCalls).events ∧ LoggerSet (this.run undisturbed).events) &&
      (this.run mixedCalls).result.isSome && (this.run undisturbed).result.isSome) = some true := by
    decide +kernel
  obtain ⟨this, built, all⟩ := Option.map_eq_some_iff.mp computed
  simp only [Bool.and_eq_true, decide_eq_true_eq] at all
  obtain ⟨⟨⟨setLeft, setRight⟩, left⟩, right⟩ := all
  obtain ⟨left, returnsLeft⟩ := Option.isSome_iff_exists.mp left
  obtain ⟨right, returnsRight⟩ := Option.isSome_iff_exists.mp right
  exact ⟨this, built, flows_ignore_dns sampleNetDec (by decide) 0 0 this built _ _ setLeft setRight
    left right returnsLeft returnsRight (by decide) ⟨1, []⟩ (by decide)⟩

end Devourer

end Devourer
