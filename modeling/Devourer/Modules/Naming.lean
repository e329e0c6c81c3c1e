import Devourer.Modules.Dns.Resolution
import Devourer.Modules.Flow.Report

/-! # How old the names of flows are

`ModFlow` asks `ModDns` for the names of the two ends of a new flow. The records of
`ModDns` grow older with the packets that `ModDns` handles and with no others, so the
age of a name is bounded on this clock only (`names_backed`): when nothing but IP
packets come, a record stays as it is, however late it is (`lateFlow_not_fresh`).
-/

namespace Devourer

/-- A packet of the capture, for one of the two modules. -/
inductive Packet where
  | dns (memory : Memory) (p : Property)
  | ip (eid : EvId) (p : Property)

/-- The two modules, the second of which reads the first. -/
structure Capture where
  dns : ModDns
  flow : ModFlow

/-- What the two modules report. -/
inductive CaptureEvent where
  | dns (event : DnsEvent)
  | flow (event : FlowEvent)

namespace Packet

def p : Packet → Property
  | .dns _ p => p
  | .ip _ p => p

/-- The call of `ModDns::recv`, if it is one. -/
def dnsInput : Packet → Option ModDns.Input
  | .dns memory p => some ⟨memory, p⟩
  | .ip _ _ => none

end Packet

namespace Capture

def new (evIpv4 evIpv6 : EvId) : Capture := ⟨ModDns.new, ModFlow.new evIpv4 evIpv6⟩

/-- One packet. -/
def recv (packet : Packet) (this : Capture) : Exec CaptureEvent Capture :=
  match packet with
  | .dns memory p =>
      (this.dns.recv memory p).mapEvents .dns >>= fun dns => pure { this with dns := dns }
  | .ip eid p =>
      (this.flow.recv this.dns eid p).mapEvents .flow >>= fun flow =>
        pure { this with flow := flow }

/-- A capture. -/
def run : Capture → List Packet → Exec CaptureEvent Capture :=
  Exec.run fun this packet => this.recv packet

/-- The timestamps are positive and do not step backwards. -/
def Ordered (packets : List Packet) : Prop :=
  (packets.Pairwise fun earlier later => earlier.p.tvSec ≤ later.p.tvSec) ∧
    ∀ packet ∈ packets, 0 < packet.p.tvSec

/-- The calls of `ModDns::recv`. -/
def dnsInputs (packets : List Packet) : List ModDns.Input := packets.filterMap Packet.dnsInput

/-- The second of the last packet that `ModDns` handled. -/
def lastDnsSecond (packets : List Packet) : ℤ := ModDns.lastSecond 0 (dnsInputs packets)

/-- The address was carried by an A or AAAA answer of a matched response, no more than
`limit` seconds before `now`. -/
def Fresh (evIpv4 evIpv6 : EvId) (packets : List Packet) (now limit : ℤ) (addr : Bytes) : Prop :=
  ∃ front memory q back, packets = front ++ .dns memory q :: back ∧
    (∃ before, ((Capture.new evIpv4 evIpv6).run front).result = some before ∧
      q.dnsQuery ≠ 0 ∧ ((before.dns.tick q.tvSec).findQuery q).isSome) ∧
    (∃ answer ∈ q.answers, ModDns.IsAddress answer ∧ answer.ptr = addr) ∧
    now - q.tvSec ≤ limit

instance : DecidablePred Ordered := fun _ => instDecidableAnd

/-! ## The two modules in a capture -/

variable {evIpv4 evIpv6 : EvId} {packets : List Packet} {this : Capture}

theorem recv_dns (memory : Memory) (p : Property) (this : Capture) :
    this.recv (.dns memory p) = ⟨(this.dns.recv memory p).events.map .dns,
      (this.dns.recv memory p).result.map fun dns => { this with dns := dns }⟩ :=
  Exec.mapEvents_bind_pure ..

theorem recv_ip (eid : EvId) (p : Property) (this : Capture) :
    this.recv (.ip eid p) = ⟨(this.flow.recv this.dns eid p).events.map .flow,
      (this.flow.recv this.dns eid p).result.map fun flow => { this with flow := flow }⟩ :=
  Exec.mapEvents_bind_pure ..

/-- The DNS module has handled its packets, and the flow module is between calls. -/
theorem run_modules (reached : ((Capture.new evIpv4 evIpv6).run packets).result = some this) :
    (ModDns.new.run (dnsInputs packets)).result = some this.dns ∧ this.flow.Kept := by
  induction packets using List.reverseRecOn generalizing this with
  | nil =>
      cases reached
      exact ⟨rfl, ModFlow.Kept.new evIpv4 evIpv6⟩
  | append_singleton packets packet ih =>
      obtain ⟨before, earlier, returned⟩ := Exec.run_snoc_result.mp reached
      obtain ⟨dnsReached, kept⟩ := ih earlier
      unfold dnsInputs
      rw [List.filterMap_append]
      cases packet with
      | dns memory p =>
          rw [recv_dns] at returned
          obtain ⟨dns, moved, rfl⟩ := Option.map_eq_some_iff.mp returned
          exact ⟨Exec.run_snoc_result.mpr ⟨before.dns, dnsReached, moved⟩, kept⟩
      | ip eid p =>
          rw [recv_ip] at returned
          obtain ⟨flow, moved, rfl⟩ := Option.map_eq_some_iff.mp returned
          rw [show [Packet.ip eid p].filterMap Packet.dnsInput = [] from rfl, List.append_nil]
          exact ⟨dnsReached, kept.recv moved⟩

/-- In the order of their timestamps, the calls progress the tables by the seconds that
pass. -/
theorem progress_eq {last : ℤ} (positive : 0 < last) {inputs : List ModDns.Input}
    (sorted : inputs.Pairwise fun earlier later => earlier.p.tvSec ≤ later.p.tvSec)
    (later : ∀ input ∈ inputs, last ≤ input.p.tvSec) :
    (ModDns.progress last inputs : ℤ) = ModDns.lastSecond last inputs - last := by
  induction inputs generalizing last with
  | nil => exact (Int.sub_self last).symm
  | cons input rest ih =>
      obtain ⟨after, sorted⟩ := List.pairwise_cons.mp sorted
      have here := later input List.mem_cons_self
      have upper := input.p.tvSec_upper
      rw [ModDns.progress, ModDns.lastSecond, Nat.cast_add, ih (by omega) sorted after,
        ModDns.ticksTo]
      by_cases forward : last < input.p.tvSec
      · rw [if_pos ⟨positive, forward⟩, sizeOfTime_of_nonneg (by omega) (by omega)]
        omega
      · rw [if_neg fun both => forward both.2]
        omega

theorem dnsInput_eq_some {packet : Packet} {input : ModDns.Input}
    (isCall : packet.dnsInput = some input) : packet = .dns input.memory input.p := by
  cases packet with
  | dns memory p =>
      cases isCall
      rfl
  | ip eid p => cases isCall

theorem mem_dnsInputs {input : ModDns.Input} (member : input ∈ dnsInputs packets) :
    .dns input.memory input.p ∈ packets := by
  obtain ⟨packet, inside, isCall⟩ := List.mem_filterMap.mp member
  rwa [dnsInput_eq_some isCall] at inside

theorem Ordered.dnsInputs (ordered : Ordered packets) :
    (dnsInputs packets).Pairwise fun earlier later => earlier.p.tvSec ≤ later.p.tvSec := by
  refine List.pairwise_filterMap.mpr (ordered.1.imp fun before first isFirst second isSecond => ?_)
  rwa [dnsInput_eq_some isFirst, dnsInput_eq_some isSecond] at before

/-- The answer that a record of `ModDns` was built for is no older, on the clock of
`ModDns`, than records are kept. -/
theorem fresh_of_stored (ordered : Ordered packets)
    (reached : ((Capture.new evIpv4 evIpv6).run packets).result = some this)
    {answer : AnswerRecord} (stored : ModDns.AddrStored (dnsInputs packets) this.dns answer) :
    Fresh evIpv4 evIpv6 packets (lastDnsSecond packets) 600 answer.ptr := by
  obtain ⟨address, id, slot, age, -, young, front, call, rest, before, after, split, dnsReached, -,
    response, matched, member, -, -, rfl⟩ := stored
  have clock : lastDnsSecond packets = ModDns.lastSecond 0 (dnsInputs packets) := rfl
  have sorted := ordered.dnsInputs
  have positive : 0 < call.p.tvSec :=
    ordered.2 _ (mem_dnsInputs (split ▸ List.mem_append_right _ List.mem_cons_self))
  rw [split] at clock sorted
  rw [ModDns.lastSecond_append_cons] at clock
  obtain ⟨after, sorted⟩ := List.pairwise_cons.mp (List.pairwise_append.mp sorted).2.1
  have age := progress_eq positive sorted after
  -- where the call stands among the packets
  obtain ⟨first, second, rfl, frontIs, later⟩ := List.filterMap_eq_append_iff.mp split
  obtain ⟨skipped, packet, back, rfl, others, isCall, -⟩ := List.filterMap_eq_cons_iff.mp later
  obtain rfl := dnsInput_eq_some isCall
  rw [← List.append_assoc] at reached clock ⊢
  obtain ⟨middle, earlier, -⟩ := (Exec.bind_result_eq_some.mp
    (congrArg Exec.result (Exec.run_append (first ++ skipped) _) ▸ reached))
  have same : dnsInputs (first ++ skipped) = front := by
    unfold dnsInputs
    rw [List.filterMap_append, frontIs, List.filterMap_eq_nil_iff.mpr others, List.append_nil]
  have dnsBefore := (run_modules earlier).1
  rw [same, dnsReached] at dnsBefore
  cases dnsBefore
  refine ⟨first ++ skipped, call.memory, call.p, back, rfl, ⟨middle, earlier, response, matched⟩,
    ⟨answer, member, address, rfl⟩, ?_⟩
  have bound : (ModDns.cacheTtl : ℤ) = 600 := rfl
  omega

/-- The name that a message reports under the field was found for the address. -/
theorem resolved_of_field {src : String} {name : String}
    (field : Message.nameValue src = some (.text name)) : src = name ∧ name ≠ "" := by
  unfold Message.nameValue at field
  split at field
  · cases field
  · rename_i named
    cases field
    exact ⟨rfl, named⟩

/-- **The age of the names of a new flow.** In a capture with nondecreasing positive
timestamps, a name that is reported for an end of a new flow stems from an answer with
the address of this end, in a matched response that `ModDns` handled at most 600 seconds
before the last packet that `ModDns` handled. -/
theorem names_backed (evIpv4 evIpv6 : EvId) (packets : List Packet) (ordered : Ordered packets)
    (this : Capture) (reached : ((Capture.new evIpv4 evIpv6).run packets).result = some this)
    (eid : EvId) (p : Property) (id : ℕ) (key : FlowKey) (msg : Message)
    (created : .flow (.emitNew id key msg) ∈ (this.recv (.ip eid p)).events) (name : String) :
    (msg.field "src_name" = some (.text name) →
      Fresh evIpv4 evIpv6 packets (lastDnsSecond packets) 600 p.src.bytes) ∧
    (msg.field "dst_name" = some (.text name) →
      Fresh evIpv4 evIpv6 packets (lastDnsSecond packets) 600 p.dst.bytes) := by
  obtain ⟨dnsReached, kept⟩ := run_modules reached
  have sourced := ModDns.Sourced.run dnsReached
  have fresh : ∀ {addr : Bytes} {src : String},
      this.dns.resolvAddr addr ModDns.recurMaxDefault = some src →
      Message.nameValue src = some (.text name) →
      Fresh evIpv4 evIpv6 packets (lastDnsSecond packets) 600 addr := by
    intro addr src resolved field
    obtain ⟨rfl, named⟩ := resolved_of_field field
    obtain ⟨answer, -, stored, rfl, -⟩ := sourced.resolved resolved named
    exact fresh_of_stored ordered reached stored
  rw [recv_ip] at created
  obtain ⟨event, inside, told⟩ := List.mem_map.mp created
  cases told
  rcases ModFlow.recv_spec this.dns eid p kept with ⟨-, -, told⟩ |
    ⟨-, middle, handling, after, ticked, handled, same⟩
  · exact (ModFlow.emitNew_not_mem_tickEvents (told _ inside)).elim
  rw [same] at inside
  rcases List.mem_append.mp inside with ticking | here
  · exact (ModFlow.emitNew_not_mem_tickEvents ticking).elim
  cases handled with
  | skipped => cases here
  | known => simp at here
  | fresh src dst ip srcIs dstIs =>
      simp only [List.mem_cons, FlowEvent.emitNew.injEq, reduceCtorEq, List.not_mem_nil, or_false]
        at here
      obtain ⟨-, -, rfl⟩ := here
      obtain ⟨-, -, -, -, srcName, dstName⟩ :=
        ModFlow.field_newMessage p (Flow.new p src dst) src dst
      rw [srcName, dstName]
      exact ⟨fresh srcIs, fresh dstIs⟩

/-- A query, and a response to it with the address that the source of the sample
packets has. -/
def answered : List Packet :=
  [.dns ModDns.blank (ModDns.sampleQuery 1), .dns ModDns.blank { ModDns.sampleQuery 2 with
    dnsQuery := 1
    answers := [⟨"name", "", 1, "", [10, 0, 0, 1]⟩] }]

/-- A flow that begins at the second reports the name. -/
theorem exists_named (second : UInt32)
    (computed : ((Capture.new 4 6).run answered).result.map (fun this =>
      (this.recv (.ip 4 (Property.sample second 7))).events.any fun event =>
        match event with
        | .flow (.emitNew _ _ msg) => msg.field "src_name" = some (.text "name")
        | _ => false) = some true) :
    ∃ this id key msg, ((Capture.new 4 6).run answered).result = some this ∧
      .flow (.emitNew id key msg) ∈ (this.recv (.ip 4 (Property.sample second 7))).events ∧
      msg.field "src_name" = some (.text "name") := by
  obtain ⟨this, reached, reported⟩ := Option.map_eq_some_iff.mp computed
  obtain ⟨event, member, named⟩ := List.any_eq_true.mp reported
  cases event with
  | dns event => cases named
  | flow event =>
      cases event with
      | emitNew id key msg => exact ⟨this, id, key, msg, reached, member, of_decide_eq_true named⟩
      | emitLog id key msg => cases named
      | put id ttl taken => cases named
      | counted id p => cases named

theorem names_backed_sample : Fresh 4 6 answered 2 600 [10, 0, 0, 1] := by
  obtain ⟨this, id, key, msg, reached, created, named⟩ := exists_named 3 (by decide +kernel)
  exact (names_backed 4 6 answered (by decide) this reached 4 (Property.sample 3 7) id key msg
    created "name").1 named

/-- **A name may be older.** Fifty minutes after the response, without DNS packets since,
a new flow still reports the name. -/
theorem lateFlow_not_fresh : Ordered (answered ++ [.ip 4 (Property.sample 3000 7)]) ∧
    ∃ this id key msg, ((Capture.new 4 6).run answered).result = some this ∧
      .flow (.emitNew id key msg) ∈ (this.recv (.ip 4 (Property.sample 3000 7))).events ∧
      msg.field "src_name" = some (.text "name") ∧
      ¬ Fresh 4 6 answered 3000 601 (Property.sample 3000 7).src.bytes := by
  obtain ⟨this, id, key, msg, reached, created, named⟩ := exists_named 3000 (by decide +kernel)
  refine ⟨by decide, this, id, key, msg, reached, created, named, ?_⟩
  rintro ⟨front, memory, q, back, split, -, -, recent⟩
  have early : ∀ packet ∈ answered, packet.p.tvSec ≤ 2 := by decide
  have before : q.tvSec ≤ 2 :=
    early (.dns memory q) (split ▸ List.mem_append_right _ List.mem_cons_self)
  omega

end Capture

end Devourer
