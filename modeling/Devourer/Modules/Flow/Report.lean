import Devourer.Modules.Flow.Story

/-! # What `flow.log` reports

`flow.log` tells the same story as `flow.new`: the client is the source of the
first packet, and the counters are those of the packets that travelled the way of
the first packet and of those that travelled back (`log_tells_new`). The counters
are 32-bit integers, so what they report is exact as long as the totals stay below
`2 ^ 31`, and no longer (`counters_exact_iff`).
-/

namespace Devourer

/-- How many of the packets have the direction. -/
def pktsOf (dir : FlowDir) (packets : List Property) : ℕ := packets.countP fun p => p.dir = dir

/-- How many bytes the packets of the direction have. -/
def bytesOf (dir : FlowDir) (packets : List Property) : ℕ :=
  ((packets.filter fun p => p.dir = dir).map fun p => p.len.toNat).sum

namespace Flow

/-- What no packet changes, the packets do not change. -/
theorem updates_fixed {β : Type} {read : Flow → β}
    (fixed : ∀ (p : Property) (flow : Flow), read (flow.update p) = read flow)
    (packets : List Property) (flow : Flow) : read (flow.updates packets) = read flow := by
  induction packets generalizing flow with
  | nil => rfl
  | cons p rest ih => exact (ih (flow.update p)).trans (fixed p flow)

/-- The packet counter of a direction counts the packets of the direction. -/
theorem pkt_updates {dir : FlowDir} (directed : dir ≠ .nil) (packets : List Property)
    (flow : Flow) : (flow.updates packets).pkt dir =
      flow.pkt dir + Int32.ofNat (pktsOf dir packets) := by
  induction packets generalizing flow with
  | nil => simp [updates, pktsOf]
  | cons p rest ih =>
      change ((flow.update p).updates rest).pkt dir = _
      rw [ih, pkt_update directed, pktsOf, pktsOf, List.countP_cons, Int32.add_assoc,
        ← Int32.ofNat_add, Nat.add_comm]
      simp only [decide_eq_true_eq]

theorem size_updates {dir : FlowDir} (directed : dir ≠ .nil) (packets : List Property)
    (flow : Flow) : (flow.updates packets).size dir =
      flow.size dir + Int32.ofNat (bytesOf dir packets) := by
  induction packets generalizing flow with
  | nil => simp [updates, bytesOf]
  | cons p rest ih =>
      change ((flow.update p).updates rest).size dir = _
      rw [ih, size_update directed, bytesOf, bytesOf, List.filter_cons, Int32.add_assoc,
        ← Int32.ofNat_add]
      by_cases same : p.dir = dir <;> simp [same]

/-! ## Exchanging left and right -/

/-- The flow with its two ends exchanged. -/
def mirror (flow : Flow) : Flow :=
  { flow with
    initDir := flow.initDir.opposite
    lAddr := flow.rAddr
    rAddr := flow.lAddr
    lName := flow.rName
    rName := flow.lName
    lPort := flow.rPort
    rPort := flow.lPort
    lPkt := flow.rPkt
    rPkt := flow.lPkt
    lSize := flow.rSize
    rSize := flow.lSize }

end Flow

/-- The packet as it would be with left and right exchanged. -/
def Property.mirror (p : Property) : Property := { p with dir := p.dir.opposite }

/-- Two messages have the same tag, time and fields. -/
def Message.Agrees (first second : Message) : Prop :=
  first.tag = second.tag ∧ first.ts = second.ts ∧ ∀ name, first.field name = second.field name

namespace Flow

theorem mirror_new (p : Property) (src dst : String) :
    Flow.new p.mirror src dst = (Flow.new p src dst).mirror := by
  unfold Flow.new Property.mirror mirror
  cases p.dir <;> rfl

theorem mirror_update (p : Property) (flow : Flow) :
    flow.mirror.update p.mirror = (flow.update p).mirror := by
  unfold update Property.mirror mirror
  cases p.dir <;> rfl

theorem mirror_updates (packets : List Property) (flow : Flow) :
    flow.mirror.updates (packets.map Property.mirror) = (flow.updates packets).mirror := by
  induction packets generalizing flow with
  | nil => rfl
  | cons p rest ih =>
      change (flow.mirror.update p.mirror).updates (rest.map Property.mirror) = _
      rw [mirror_update, ih]
      rfl

/-- Two fields with different names may be set in any order. -/
theorem or_swap {first second : String} (differ : first ≠ second) (name : String)
    (value here there : Option Value) :
    (value.or (if first = name then here else none)).or (if second = name then there else none) =
      (value.or (if second = name then there else none)).or
        (if first = name then here else none) := by
  by_cases own : first = name
  · subst own
    simp [differ.symm]
  · simp [own]

/-- Which end is left does not matter to the fields. -/
theorem field_setEnds_mirror (flow : Flow) (msg : Message) (name : String) :
    (setEnds server client flow.mirror msg).field name =
      (setEnds client server flow msg).field name := by
  have addr : server.addr ≠ client.addr := by decide
  have port : server.port ≠ client.port := by decide
  have size : server.size ≠ client.size := by decide
  have pkt : server.pkt ≠ client.pkt := by decide
  have named : server.name ≠ client.name := by decide
  simp only [setEnds, mirror, Message.field_set, Message.field_setName, or_swap addr, or_swap port,
    or_swap size, or_swap pkt, or_swap named]

/-- A flow is logged as the flow with left and right exchanged is. -/
theorem buildMessage_mirror {flow : Flow} {log : Message} (built : flow.buildMessage = some log) :
    ∃ other, flow.mirror.buildMessage = some other ∧ other.Agrees log := by
  unfold buildMessage at built ⊢
  cases dir : flow.initDir with
  | nil => simp [dir] at built
  | l2r =>
      simp only [dir, Option.some.injEq] at built
      subst built
      refine ⟨_, by simp only [mirror, dir, FlowDir.opposite]; rfl, ?_, ?_, fun name => ?_⟩
      · simp [setEnds]
      · simp [setEnds]
      · exact field_setEnds_mirror flow _ name
  | r2l =>
      simp only [dir, Option.some.injEq] at built
      subst built
      refine ⟨_, by simp only [mirror, dir, FlowDir.opposite]; rfl, ?_, ?_, fun name => ?_⟩
      · simp [setEnds]
      · simp [setEnds]
      · exact (field_setEnds_mirror flow.mirror _ name).symm

end Flow

namespace ModFlow

/-! ## What a story tells of the flow -/

variable {id : ℕ} {events : List FlowEvent} {first : Property} {rest : List Property}
  {src dst : String} {flow : Flow}

/-- What neither packets nor refreshes change is as the first packet had it. -/
theorem Story.fixed {β : Type} (story : Story id events first rest src dst flow) (read : Flow → β)
    (update : ∀ (p : Property) (flow : Flow), read (flow.update p) = read flow)
    (refresh : ∀ (tvSec : ℤ) (flow : Flow), read (flow.refresh tvSec) = read flow) :
    read flow = read (Flow.new first src dst) := by
  rw [← story.flow, refresh, Flow.updates_fixed update]

theorem Story.initDir (story : Story id events first rest src dst flow) :
    flow.initDir = first.dir :=
  story.fixed Flow.initDir Flow.initDir_update Flow.initDir_refresh

/-- The two ends are those of the first packet. -/
theorem Story.ends (story : Story id events first rest src dst flow) (directed : first.dir ≠ .nil) :
    flow.addr first.dir = first.srcAddr ∧ flow.addr first.dir.opposite = first.dstAddr ∧
    flow.port first.dir = first.srcPort ∧ flow.port first.dir.opposite = first.dstPort ∧
    flow.resolved first.dir = src ∧ flow.resolved first.dir.opposite = dst ∧
    flow.proto = first.proto ∧ flow.hvHex = first.hashHex := by
  have update : ∀ dir (p : Property) (flow : Flow), (flow.update p).addr dir = flow.addr dir ∧
      (flow.update p).port dir = flow.port dir ∧ (flow.update p).resolved dir = flow.resolved dir ∧
      (flow.update p).proto = flow.proto := by
    intro dir p flow
    unfold Flow.update
    cases dir <;> cases p.dir <;> exact ⟨rfl, rfl, rfl, rfl⟩
  have refresh : ∀ dir (tvSec : ℤ) (flow : Flow),
      (flow.refresh tvSec).addr dir = flow.addr dir ∧
      (flow.refresh tvSec).port dir = flow.port dir ∧
      (flow.refresh tvSec).resolved dir = flow.resolved dir := by
    intro dir tvSec flow
    cases dir <;> exact ⟨rfl, rfl, rfl⟩
  have addr := fun dir => story.fixed (Flow.addr dir) (fun p flow => (update dir p flow).1)
    (fun tvSec flow => (refresh dir tvSec flow).1)
  have port := fun dir => story.fixed (Flow.port dir) (fun p flow => (update dir p flow).2.1)
    (fun tvSec flow => (refresh dir tvSec flow).2.1)
  have resolved := fun dir => story.fixed (Flow.resolved dir)
    (fun p flow => (update dir p flow).2.2.1) (fun tvSec flow => (refresh dir tvSec flow).2.2)
  have proto := story.fixed Flow.proto (fun p flow => (update .nil p flow).2.2.2) fun _ _ => rfl
  have hvHex := story.fixed Flow.hvHex Flow.hvHex_update fun _ _ => rfl
  rw [addr, addr, port, port, resolved, resolved, proto, hvHex]
  unfold Flow.new
  cases dir : first.dir with
  | nil => exact (directed dir).elim
  | l2r => simp [Flow.addr, Flow.port, Flow.resolved, FlowDir.opposite]
  | r2l => simp [Flow.addr, Flow.port, Flow.resolved, FlowDir.opposite]

/-- The counters are the totals of the packets, in 32 bits. -/
theorem Story.counters (story : Story id events first rest src dst flow) {dir : FlowDir}
    (directed : dir ≠ .nil) :
    flow.pkt dir = Int32.ofNat (pktsOf dir (first :: rest)) ∧
      flow.size dir = Int32.ofNat (bytesOf dir (first :: rest)) := by
  have refresh : ∀ (tvSec : ℤ) (flow : Flow), (flow.refresh tvSec).pkt dir = flow.pkt dir ∧
      (flow.refresh tvSec).size dir = flow.size dir := by
    intro tvSec flow
    cases dir <;> exact ⟨rfl, rfl⟩
  have zero : (Flow.new first src dst).pkt dir = 0 ∧ (Flow.new first src dst).size dir = 0 := by
    cases dir <;> exact ⟨rfl, rfl⟩
  rw [← story.flow, (refresh ..).1, (refresh ..).2, Flow.pkt_updates directed,
    Flow.size_updates directed, zero.1, zero.2, Int32.zero_add, Int32.zero_add]
  exact ⟨rfl, rfl⟩

theorem field_newMessage (p : Property) (flow : Flow) (src dst : String) :
    (newMessage p flow src dst).field "src_addr" = some (.text p.srcAddr) ∧
    (newMessage p flow src dst).field "dst_addr" = some (.text p.dstAddr) ∧
    (newMessage p flow src dst).field "hash" = some (.text flow.hvHex) ∧
    (newMessage p flow src dst).field "proto" = some (.text p.proto) ∧
    (newMessage p flow src dst).field "src_name" = Message.nameValue src ∧
    (newMessage p flow src dst).field "dst_name" = Message.nameValue dst := by
  unfold newMessage
  split <;> simp

/-! ## The two messages of a flow -/

/-- The two messages speak of the same flow and name its ends alike. -/
def EndsAgree (log new : Message) : Prop :=
  log.field "c_addr" = new.field "src_addr" ∧ log.field "s_addr" = new.field "dst_addr" ∧
  log.field "hash" = new.field "hash" ∧ log.field "proto" = new.field "proto" ∧
  log.field "c_name" = new.field "src_name" ∧ log.field "s_name" = new.field "dst_name"

/-- The message reports the totals of the packets, the client's being those of the
given direction. -/
def Exact (dir : FlowDir) (packets : List Property) (log : Message) : Prop :=
  log.field "c_pkt" = some (.int (pktsOf dir packets)) ∧
  log.field "s_pkt" = some (.int (pktsOf dir.opposite packets)) ∧
  log.field "c_size" = some (.int (bytesOf dir packets)) ∧
  log.field "s_size" = some (.int (bytesOf dir.opposite packets))

/-- The totals of both directions are below `2 ^ 31`. -/
def Small (packets : List Property) : Prop :=
  ∀ dir, dir ≠ .nil → pktsOf dir packets < 2 ^ 31 ∧ bytesOf dir packets < 2 ^ 31

theorem small_iff {packets : List Property} : Small packets ↔
    (pktsOf .l2r packets < 2 ^ 31 ∧ bytesOf .l2r packets < 2 ^ 31) ∧
      pktsOf .r2l packets < 2 ^ 31 ∧ bytesOf .r2l packets < 2 ^ 31 := by
  constructor
  · exact fun small => ⟨small .l2r (by decide), small .r2l (by decide)⟩
  · rintro ⟨right, left⟩ dir directed
    cases dir with
    | nil => exact (directed rfl).elim
    | l2r => exact right
    | r2l => exact left

instance : DecidablePred Small := fun _ => decidable_of_iff' _ small_iff

theorem toInt_ofNat_eq_iff {total : ℕ} : (Int32.ofNat total).toInt = total ↔ total < 2 ^ 31 := by
  constructor
  · intro exact
    have upper := (Int32.ofNat total).toInt_lt
    omega
  · exact fun small => Int32.toInt_ofNat_of_lt small

/-- **The counters of a logged flow** are exact if and only if the totals are
small. -/
theorem Story.exact_iff (story : Story id events first rest src dst flow) {log : Message}
    (built : flow.buildMessage = some log) : Exact first.dir (first :: rest) log ↔
      Small (first :: rest) := by
  obtain ⟨directed, -, -, -, -, -, -, -, -, cSize, sSize, cPkt, sPkt, -, -⟩ :=
    Flow.field_of_buildMessage built
  rw [story.initDir] at directed cSize sSize cPkt sPkt
  obtain ⟨client, clientSize⟩ := story.counters directed
  obtain ⟨server, serverSize⟩ := story.counters (mt FlowDir.opposite_eq_nil.mp directed)
  unfold Exact
  rw [cPkt, sPkt, cSize, sSize, client, server, clientSize, serverSize]
  simp only [Option.some.injEq, Value.int.injEq, toInt_ofNat_eq_iff]
  constructor
  · rintro ⟨cPkt, sPkt, cSize, sSize⟩ dir some
    rcases FlowDir.eq_or_eq_opposite directed some with rfl | rfl
    · exact ⟨cPkt, cSize⟩
    · exact ⟨sPkt, sSize⟩
  · intro small
    obtain ⟨cPkt, cSize⟩ := small first.dir directed
    obtain ⟨sPkt, sSize⟩ := small first.dir.opposite (mt FlowDir.opposite_eq_nil.mp directed)
    exact ⟨cPkt, sPkt, cSize, sSize⟩

/-- The flow that a call logs, as the calls before told of it. -/
theorem story_of_emitLog {evIpv4 evIpv6 : EvId} {calls : List Input} {this : ModFlow}
    (reached : ((ModFlow.new evIpv4 evIpv6).run calls).result = some this) {dns : ModDns}
    {eid : EvId} {p : Property} {key : FlowKey} {log : Message}
    (logged : .emitLog id key log ∈ (this.recv dns eid p).events) :
    (this.flow id).buildMessage = some log ∧ ∃ first rest src dst,
      Story id ((ModFlow.new evIpv4 evIpv6).run calls).events first rest src dst
        (this.flow id) := by
  have kept := Kept.run reached
  obtain ⟨due, -, built⟩ := due_of_emitLog kept logged
  obtain ⟨slot, live⟩ := expired_live kept due
  exact ⟨built, (Told.run reached).built id (kept.wf.live_lt live)⟩

/-- **`flow.log` tells the same story as `flow.new`.** A logged flow was reported as
new by exactly one message, for the first packet counted in it. The two messages
name the same ends; the ports are those of the first packet; while the totals stay
below `2 ^ 31` the counters are the packets and bytes that travelled the way of the
first packet and those that travelled back; and with left and right exchanged in
all packets the message would be the same. -/
theorem log_tells_new (evIpv4 evIpv6 : EvId) (calls : List Input) (input : Input) (this : ModFlow)
    (reached : ((ModFlow.new evIpv4 evIpv6).run calls).result = some this) (id : ℕ) (key : FlowKey)
    (log : Message)
    (logged : .emitLog id key log ∈ (this.recv input.dns input.eid input.p).events) :
    ∃ first rest src dst,
      packets id ((ModFlow.new evIpv4 evIpv6).run calls).events = first :: rest ∧
      first.dir ≠ .nil ∧
      (∀ msg, IsOpening id ((ModFlow.new evIpv4 evIpv6).run calls).events msg ↔
        msg = newMessage first (Flow.new first src dst) src dst) ∧
      EndsAgree log (newMessage first (Flow.new first src dst) src dst) ∧
      log.field "c_port" = some (.int first.srcPort.toInt) ∧
      log.field "s_port" = some (.int first.dstPort.toInt) ∧
      (Small (first :: rest) → Exact first.dir (first :: rest) log) ∧
      ∃ mirrored, ((Flow.new first.mirror src dst).updates
          ((first :: rest).map Property.mirror)).buildMessage = some mirrored ∧
        mirrored.Agrees log := by
  obtain ⟨built, first, rest, src, dst, story⟩ := story_of_emitLog reached logged
  obtain ⟨directed, proto, hash, -, -, cAddr, sAddr, cPort, sPort, -, -, -, -, cName, sName⟩ :=
    Flow.field_of_buildMessage built
  rw [story.initDir] at directed cAddr sAddr cPort sPort cName sName
  obtain ⟨srcAddr, dstAddr, srcPort, dstPort, srcName, dstName, sameProto, sameHash⟩ :=
    story.ends directed
  obtain ⟨newSrc, newDst, newHash, newProto, newSrcName, newDstName⟩ :=
    field_newMessage first (Flow.new first src dst) src dst
  refine ⟨first, rest, src, dst, story.counted, directed, story.opening, ⟨?_, ?_, ?_, ?_, ?_, ?_⟩,
    ?_, ?_, (story.exact_iff built).mpr, ?_⟩
  · rw [cAddr, newSrc, srcAddr]
  · rw [sAddr, newDst, dstAddr]
  · rw [hash, newHash, sameHash]
    rfl
  · rw [proto, newProto, sameProto]
  · rw [cName, newSrcName, srcName]
  · rw [sName, newDstName, dstName]
  · rw [cPort, srcPort]
  · rw [sPort, dstPort]
  · -- a refresh leaves the message as it is
    rw [Flow.mirror_new, Flow.mirror_updates]
    apply Flow.buildMessage_mirror
    rw [← built, ← story.flow]
    rfl

/-- A packet from right to left and the answer to it. -/
def answeredFlow : List Input :=
  [⟨ModDns.new, 4, { Property.sample 1 1 with dir := .r2l, len := 40 }⟩,
    ⟨ModDns.new, 4, { Property.sample 1 1 with len := 60 }⟩]

theorem log_tells_new_sample : ∃ this key log,
    ((ModFlow.new 4 6).run answeredFlow).result = some this ∧
    .emitLog 0 key log ∈ (this.recv ModDns.new 4 (Property.sample 602 2)).events ∧
    ∃ first rest src dst,
      packets 0 ((ModFlow.new 4 6).run answeredFlow).events = first :: rest ∧
      EndsAgree log (newMessage first (Flow.new first src dst) src dst) ∧
      Exact first.dir (first :: rest) log := by
  obtain ⟨this, key, log, reached, logged⟩ :=
    exists_emitLog (ModFlow.new 4 6) answeredFlow (.sample 602 2) 0 (by decide +kernel)
  obtain ⟨first, rest, src, dst, counted, -, -, ends, -, -, exact, -⟩ :=
    log_tells_new 4 6 answeredFlow (.sample 602 2) this reached 0 key log logged
  have small : Small (packets 0 ((ModFlow.new 4 6).run answeredFlow).events) := by decide +kernel
  rw [counted] at small
  exact ⟨this, key, log, reached, logged, first, rest, src, dst, counted, ends, exact small⟩

/-- **The counters that `flow.log` reports are exact as long as the totals are
small, and no longer.** -/
theorem counters_exact_iff (evIpv4 evIpv6 : EvId) (calls : List Input) (input : Input)
    (this : ModFlow) (reached : ((ModFlow.new evIpv4 evIpv6).run calls).result = some this) (id : ℕ)
    (key : FlowKey) (log : Message)
    (logged : .emitLog id key log ∈ (this.recv input.dns input.eid input.p).events) :
    ∃ first, (packets id ((ModFlow.new evIpv4 evIpv6).run calls).events).head? = some first ∧
      (Exact first.dir (packets id ((ModFlow.new evIpv4 evIpv6).run calls).events) log ↔
        Small (packets id ((ModFlow.new evIpv4 evIpv6).run calls).events)) := by
  obtain ⟨built, first, rest, src, dst, story⟩ := story_of_emitLog reached logged
  rw [story.counted]
  exact ⟨first, rfl, story.exact_iff built⟩

theorem counters_exact_iff_sample : ∃ this key log,
    ((ModFlow.new 4 6).run answeredFlow).result = some this ∧
    .emitLog 0 key log ∈ (this.recv ModDns.new 4 (Property.sample 602 2)).events ∧
    Exact .r2l (packets 0 ((ModFlow.new 4 6).run answeredFlow).events) log := by
  obtain ⟨this, key, log, reached, logged⟩ :=
    exists_emitLog (ModFlow.new 4 6) answeredFlow (.sample 602 2) 0 (by decide +kernel)
  obtain ⟨first, isFirst, exact⟩ :=
    counters_exact_iff 4 6 answeredFlow (.sample 602 2) this reached 0 key log logged
  have small : Small (packets 0 ((ModFlow.new 4 6).run answeredFlow).events) := by decide +kernel
  have dirs : ((packets 0 ((ModFlow.new 4 6).run answeredFlow).events).head?.map Property.dir) =
      some .r2l := by
    decide +kernel
  rw [isFirst] at dirs
  rw [Option.some.inj dirs] at exact
  exact ⟨this, key, log, reached, logged, exact.mpr small⟩

/-- One packet of `2 ^ 31` bytes. -/
def bulkFlow : List Input := [⟨ModDns.new, 4, { Property.sample 1 1 with len := 2147483648 }⟩]

/-- The flow is logged with a negative number of bytes. -/
theorem bulkFlow_not_exact : ∃ this key log,
    ((ModFlow.new 4 6).run bulkFlow).result = some this ∧
    .emitLog 0 key log ∈ (this.recv ModDns.new 4 (Property.sample 602 2)).events ∧
    bytesOf .l2r (packets 0 ((ModFlow.new 4 6).run bulkFlow).events) = 2147483648 ∧
    log.field "c_size" = some (.int (-2147483648)) ∧
    ¬ Exact .l2r (packets 0 ((ModFlow.new 4 6).run bulkFlow).events) log := by
  obtain ⟨this, key, log, reached, logged⟩ :=
    exists_emitLog (ModFlow.new 4 6) bulkFlow (.sample 602 2) 0 (by decide +kernel)
  have total : bytesOf .l2r (packets 0 ((ModFlow.new 4 6).run bulkFlow).events) = 2147483648 := by
    decide +kernel
  have built := (due_of_emitLog (Kept.run reached) logged).2.2
  have computed : ((ModFlow.new 4 6).run bulkFlow).result.map (fun this =>
      (this.flow 0).buildMessage.map (Message.field "c_size")) =
        some (some (some (.int (-2147483648)))) := by
    decide +kernel
  rw [reached, Option.map_some, built, Option.map_some] at computed
  have negative := Option.some.inj (Option.some.inj computed)
  refine ⟨this, key, log, reached, logged, total, negative, fun exact => ?_⟩
  have told := exact.2.2.1
  rw [negative, total] at told
  cases told

end ModFlow

end Devourer
