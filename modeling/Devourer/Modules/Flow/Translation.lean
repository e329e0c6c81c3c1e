import Devourer.Modules.Dns.Translation

/-! # The flow module does not know what time it is

Packets that are captured some seconds later are handled as they are: flows go through the table
at the same ticks, are counted alike and are reported later. The times in a `flow.log` message
are those of an `unsigned int`.
-/

namespace Devourer

/-- A time in a `flow.log` message, that much later. -/
def Value.later (ahead : ℤ) : Value → Value
  | .int time => .int (Flow.unsignedOfTime (time + ahead))
  | value => value

/-- A `flow.log` message, that much later. -/
def Message.logLater (ahead : ℤ) (msg : Message) : Message where
  tag := msg.tag
  ts := msg.ts.map fun ts => Flow.unsignedOfTime (ts + ahead)
  fields := msg.fields.map fun field =>
    if field.1 = "init_ts" ∨ field.1 = "last_ts" then (field.1, field.2.later ahead) else field

/-- The flow, that much later. -/
inductive Flow.Later (ahead : ℤ) : Flow → Flow → Prop where
  | intro (flow : Flow) : Later ahead flow { flow with
      createdAt := flow.createdAt + ahead
      refreshedAt := flow.refreshedAt + ahead
      updatedAt := flow.updatedAt + ahead }

/-- The report, that much later. -/
inductive FlowEvent.Later (ahead : ℤ) : FlowEvent → FlowEvent → Prop where
  | emitNew (id : ℕ) (key : FlowKey) (msg : Message) :
      Later ahead (.emitNew id key msg) (.emitNew id key (msg.later ahead))
  | emitLog (id : ℕ) (key : FlowKey) (msg : Message) :
      Later ahead (.emitLog id key msg) (.emitLog id key (msg.logLater ahead))
  | put (id ttl : ℕ) (taken : Bool) : Later ahead (.put id ttl taken) (.put id ttl taken)
  | counted (id : ℕ) {p p' : Property} : p.Later ahead p' →
      Later ahead (.counted id p) (.counted id p')

namespace Message

variable {ahead : ℤ} {name : String}

/-- Only the time of a message is later, not its fields. -/
theorem later_set (value : Value) (msg : Message) :
    (msg.set name value).later ahead = (msg.later ahead).set name value := rfl

/-- A name is set, or left out, as before. -/
theorem later_setName (value : String) (msg : Message) :
    (msg.setName name value).later ahead = (msg.later ahead).setName name value := by
  unfold setName
  split
  · rfl
  · rfl

/-- A field that is no time stays as it is. -/
theorem logLater_set (plain : name ≠ "init_ts" ∧ name ≠ "last_ts") (value : Value)
    (msg : Message) :
    (msg.set name value).logLater ahead = (msg.logLater ahead).set name value := by
  unfold logLater set
  rw [List.map_append, List.map_singleton, if_neg (not_or.mpr plain)]

/-- A name is no time. -/
theorem logLater_setName (plain : name ≠ "init_ts" ∧ name ≠ "last_ts") (value : String)
    (msg : Message) :
    (msg.setName name value).logLater ahead = (msg.logLater ahead).setName name value := by
  unfold setName
  split
  · rfl
  · exact logLater_set plain _ msg

end Message

namespace Flow

/-- A time may wrap around before it is moved or after. -/
theorem unsignedOfTime_add (time ahead : ℤ) :
    unsignedOfTime (unsignedOfTime time + ahead) = unsignedOfTime (time + ahead) :=
  Int.emod_add_emod ..

namespace Later

variable {ahead : ℤ} {flow flow' : Flow} {p p' : Property}

/-- A flow that begins later has later times. -/
theorem new (captured : p.Later ahead p') (src dst : String) :
    Later ahead (Flow.new p src dst) (Flow.new p' src dst) := by
  cases captured
  exact .intro (Flow.new p src dst)

/-- A packet that is captured later is counted alike and updates the flow later. -/
theorem update (later : flow.Later ahead flow') (captured : p.Later ahead p') :
    (flow.update p).Later ahead (flow'.update p') := by
  cases later
  cases captured
  unfold Flow.update
  dsimp only
  cases p.dir with
  | l2r | r2l | nil => exact .intro _

/-- A flow that is put again later has the later time. -/
theorem refresh (later : flow.Later ahead flow') (captured : p.Later ahead p') :
    (flow.refresh p.tvSec).Later ahead (flow'.refresh p'.tvSec) := by
  cases later
  cases captured
  exact .intro (flow.refresh p.tvSec)

/-- What remains of a flow is a difference of its times. -/
theorem remain (later : flow.Later ahead flow') : flow'.remain = flow.remain := by
  cases later
  unfold Flow.remain
  dsimp only
  split <;> split <;> omega

/-- The key has no time. -/
theorem flowKey (later : flow.Later ahead flow') : flow'.flowKey = flow.flowKey := by
  cases later
  rfl

/-- The hash string has no time. -/
theorem hvHex (later : flow.Later ahead flow') : flow'.hvHex = flow.hvHex := by
  cases later
  rfl

/-- What is logged has later times. -/
theorem buildMessage (later : flow.Later ahead flow') :
    flow'.buildMessage = flow.buildMessage.map (Message.logLater ahead) := by
  cases later
  have front : (Message.retain "flow.log"
      |>.set "proto" (.text flow.proto)
      |>.set "init_ts" (.int (unsignedOfTime (flow.createdAt + ahead)))
      |>.set "last_ts" (.int (unsignedOfTime (flow.updatedAt + ahead)))
      |>.set "hash" (.text flow.hvHex)
      |>.setTs (unsignedOfTime (flow.createdAt + ahead))) =
    (Message.retain "flow.log"
      |>.set "proto" (.text flow.proto)
      |>.set "init_ts" (.int (unsignedOfTime flow.createdAt))
      |>.set "last_ts" (.int (unsignedOfTime flow.updatedAt))
      |>.set "hash" (.text flow.hvHex)
      |>.setTs (unsignedOfTime flow.createdAt)).logLater ahead := by
    rw [← unsignedOfTime_add flow.createdAt, ← unsignedOfTime_add flow.updatedAt]
    rfl
  unfold Flow.buildMessage
  dsimp only
  rw [front]
  cases flow.initDir with
  | nil => rfl
  | l2r | r2l =>
      unfold setEnds client server
      simp (disch := decide) only [Option.map_some, Message.logLater_set, Message.logLater_setName]

end Later

end Flow

namespace ModFlow

/-- The module, that much later. -/
structure Later (ahead : ℤ) (this this' : ModFlow) : Prop where
  clock : Clocks ahead this.lastTs this'.lastTs
  flows : this.flowTable.Alike (Flow.Later ahead) this'.flowTable
  evIpv4 : this'.evIpv4 = this.evIpv4
  evIpv6 : this'.evIpv6 = this.evIpv6
  updateMap : this'.updateMap = this.updateMap

variable {ahead : ℤ} {this this' : ModFlow} {p p' : Property}

namespace Later

/-- A new module has seen no packet and holds no flow. -/
protected theorem new (ahead : ℤ) (evIpv4 evIpv6 : EvId) :
    Later ahead (ModFlow.new evIpv4 evIpv6) (ModFlow.new evIpv4 evIpv6) :=
  ⟨.unset, .new 3600, rfl, rfl, rfl⟩

/-! ### Eviction -/

/-- A flow that expires is put again for as long, or logged that much later. -/
theorem expireWith (later : Later ahead this this') (captured : p.Later ahead p') (fluent : Bool)
    {id : ℕ} (known : id < this.flowTable.built) :
    Exec.Mirrors (Logged.Later (FlowEvent.Later ahead)) (Later ahead)
      (ModFlow.expireWith fluent p id this) (ModFlow.expireWith fluent p' id this') := by
  have flow := later.flows.objects id known
  obtain ⟨clock, flows, evIpv4, evIpv6, updateMap⟩ := later
  unfold ModFlow.expireWith
  dsimp only
  rw [flow.remain, flow.buildMessage, flow.flowKey]
  split
  · obtain ⟨same, put⟩ := flows.put (sizeOfTime (this.flowTable.object id).remain) known
    rw [same]
    apply Exec.Mirrors.bind (.emit (.event (.put id _ _)))
    intro _ _ _
    have refreshed := put.modify fun known => (put.objects id known).refresh captured
    exact .pure ⟨clock, refreshed, evIpv4, evIpv6, updateMap⟩
  · apply Exec.Mirrors.bind (Logged.Later.use fluent)
    intro _ _ _
    apply Exec.Mirrors.bind (.optionMap (Message.logLater ahead) _)
    rintro msg _ rfl
    apply Exec.Mirrors.bind (Logged.Later.log fluent (.emitLog id _ msg))
    intro _ _ _
    exact .pure ⟨clock, flows, evIpv4, evIpv6, updateMap⟩

/-- The eviction loop pops the same flows. -/
theorem evictWith (captured : p.Later ahead p') (fluent : Bool) (fuel : ℕ)
    (later : Later ahead this this') :
    Exec.Mirrors (Logged.Later (FlowEvent.Later ahead)) (Later ahead)
      (ModFlow.evictWith fluent p fuel this) (ModFlow.evictWith fluent p' fuel this') := by
  induction fuel generalizing this this' with
  | zero => exact .pure later
  | succ fuel ih =>
      obtain ⟨clock, flows, evIpv4, evIpv6, updateMap⟩ := later
      obtain ⟨same, popped, known⟩ := flows.pop
      unfold ModFlow.evictWith
      revert same popped known
      generalize this.flowTable.pop = left
      generalize this'.flowTable.pop = right
      obtain ⟨_, flowTable⟩ := left
      obtain ⟨found, flowTable'⟩ := right
      rintro rfl popped known
      cases found with
      | none => exact .pure ⟨clock, flows, evIpv4, evIpv6, updateMap⟩
      | some id =>
          have rest : Later ahead { this with flowTable } { this' with flowTable := flowTable' } :=
            ⟨clock, popped, evIpv4, evIpv6, updateMap⟩
          exact (rest.expireWith captured fluent (known id rfl)).bind fun _ _ => ih

/-- The clocks tick alike, and the same flows expire. -/
theorem tickWith (later : Later ahead this this') (captured : p.Later ahead p') (fluent : Bool) :
    Exec.Mirrors (Logged.Later (FlowEvent.Later ahead)) (Later ahead)
      (this.tickWith fluent p) (this'.tickWith fluent p') := by
  have still : Exec.Mirrors (Logged.Later (FlowEvent.Later ahead)) (Later ahead) (pure this)
    (pure this') := .pure later
  obtain ⟨clock, flows, evIpv4, evIpv6, updateMap⟩ := later
  have again := captured
  cases captured with
  | intro lower upper positive positive' _ _ =>
      have now : Clocks ahead p.tvSec (p.tvSec + ahead) := .set positive positive'
      unfold ModFlow.tickWith
      dsimp only
      revert clock
      generalize this.lastTs = lastTs
      generalize this'.lastTs = lastTs'
      rintro (_ | ⟨set, set'⟩)
      · exact .pure ⟨now, flows, evIpv4, evIpv6, updateMap⟩
      · rw [if_neg set.ne', if_neg set'.ne']
        by_cases forward : lastTs < p.tvSec
        · have ticks : p.tvSec + ahead - (lastTs + ahead) = p.tvSec - lastTs := by omega
          rw [if_pos forward, if_pos (by omega), ticks]
          have progressed := flows.prog (sizeOfTime (p.tvSec - lastTs))
          rw [progressed.table]
          exact evictWith again fluent _ ⟨now, progressed, evIpv4, evIpv6, updateMap⟩
        · rw [if_neg forward, if_neg (by omega)]
          exact still

/-! ### An IP packet -/

/-- A packet is counted in the same flow, and its bytes under the same hash string. -/
theorem count (later : Later ahead this this') (captured : p.Later ahead p') {id : ℕ}
    (known : id < this.flowTable.built) :
    Exec.Mirrors (FlowEvent.Later ahead) (Later ahead) (this.count p id) (this'.count p' id) := by
  obtain ⟨clock, flows, evIpv4, evIpv6, updateMap⟩ := later
  have counted := flows.modify fun known => (flows.objects id known).update captured
  have hex : ((this'.flowTable.modify id (Flow.update p')).object id).hvHex =
      ((this.flowTable.modify id (Flow.update p)).object id).hvHex :=
    (counted.objects id known).hvHex
  have len : p'.len = p.len := by
    cases captured
    rfl
  unfold ModFlow.count
  dsimp only
  rw [hex, len, updateMap]
  apply Exec.Mirrors.bind (.emit (.counted id captured))
  intro _ _ _
  exact .pure ⟨clock, counted, evIpv4, evIpv6, rfl⟩

/-- What is reported of a new flow is later, and has no other time in it. -/
theorem newMessage (captured : p.Later ahead p') {flow flow' : Flow}
    (later : flow.Later ahead flow') (src dst : String) :
    newMessage p' flow' src dst = (ModFlow.newMessage p flow src dst).later ahead := by
  unfold ModFlow.newMessage
  rw [later.hvHex]
  cases captured with
  | intro _ _ _ _ _ _ =>
      dsimp only
      split
      · simp only [Message.later_set, Message.later_setName]
        rfl
      · simp only [Message.later_set, Message.later_setName]
        rfl

/-- A new flow, and the flow it is. -/
theorem newFlowWith (later : Later ahead this this') (captured : p.Later ahead p')
    {dns dns' : ModDns} (resolves : dns.Later ahead dns') (fluent : Bool) :
    Exec.Mirrors (Logged.Later (FlowEvent.Later ahead))
      (fun built built' => built.1 = built'.1 ∧ built.1 < built.2.flowTable.built ∧
        Later ahead built.2 built'.2)
      (this.newFlowWith fluent dns p) (this'.newFlowWith fluent dns' p') := by
  have addrs : p'.src = p.src ∧ p'.dst = p.dst := by
    cases captured
    exact ⟨rfl, rfl⟩
  have resolved : ∀ addr, dns'.resolvAddr addr ModDns.recurMaxDefault =
      dns.resolvAddr addr ModDns.recurMaxDefault := fun addr =>
    ModDns.resolvAddr_congr resolves.addrs resolves.names addr _
  obtain ⟨clock, flows, evIpv4, evIpv6, updateMap⟩ := later
  unfold ModFlow.newFlowWith
  dsimp only
  rw [addrs.1, addrs.2, resolved, resolved, flows.built]
  apply Exec.Mirrors.bind (.option (dns.resolvAddr p.src.bytes _))
  rintro src _ rfl
  apply Exec.Mirrors.bind (.option (dns.resolvAddr p.dst.bytes _))
  rintro dst _ rfl
  have built := Flow.Later.new captured src dst
  rw [built.flowKey, newMessage captured built]
  apply Exec.Mirrors.bind (Logged.Later.use fluent)
  intro _ _ _
  apply Exec.Mirrors.bind (Logged.Later.log fluent (.emitNew _ _ _))
  intro _ _ _
  have known : this.flowTable.built < this.flowTable.built + 1 := Nat.lt_succ_self _
  obtain ⟨same, put⟩ := (flows.build built).put (sizeOfTime flowTimeout) known
  rw [same]
  apply Exec.Mirrors.bind (.emit (.event (.put _ _ _)))
  intro _ _ _
  exact .pure ⟨rfl, known, clock, put, evIpv4, evIpv6, updateMap⟩

/-- A packet belongs to the same flow, or opens one that much later. -/
theorem packetWith (later : Later ahead this this') (captured : p.Later ahead p')
    {dns dns' : ModDns} (resolves : dns.Later ahead dns') (fluent : Bool) :
    Exec.Mirrors (Logged.Later (FlowEvent.Later ahead)) (Later ahead)
      (this.packetWith fluent dns p) (this'.packetWith fluent dns' p') := by
  have keys : p'.hashValue = p.hashValue ∧ p'.ssnLabel = p.ssnLabel := by
    cases captured
    exact ⟨rfl, rfl⟩
  have found : this'.flowTable.get Flow.virt p.hashValue p.ssnLabel =
      this.flowTable.get Flow.virt p.hashValue p.ssnLabel := by
    apply later.flows.get
    rintro flow _ ⟨⟩ hv key
    exact Iff.rfl
  unfold ModFlow.packetWith
  rw [keys.1, keys.2, found]
  cases held : this.flowTable.get Flow.virt p.hashValue p.ssnLabel with
  | some id =>
      obtain ⟨slot, live⟩ := (Pool.get_eq_some held).1
      exact (later.count captured (later.flows.below id live.mem_nodes)).mapEvents
        fun _ _ here => .event here
  | none =>
      apply Exec.Mirrors.bind (later.newFlowWith captured resolves fluent)
      rintro ⟨id, next⟩ ⟨_, next'⟩ ⟨rfl, known, later⟩
      exact (later.count captured known).mapEvents fun _ _ here => .event here

/-- **A packet that is captured later** is handled as it is. -/
theorem recvWith (later : Later ahead this this') (captured : p.Later ahead p')
    {dns dns' : ModDns} (resolves : dns.Later ahead dns') (fluent : Bool) (eid : EvId) :
    Exec.Mirrors (Logged.Later (FlowEvent.Later ahead)) (Later ahead)
      (this.recvWith fluent dns eid p) (this'.recvWith fluent dns' eid p') := by
  apply Exec.Mirrors.bind (later.tickWith captured fluent)
  intro next next' later
  rw [later.evIpv4, later.evIpv6]
  split
  · exact later.packetWith captured resolves fluent
  · exact .pure later

/-! ### The end -/

/-- The loop of the destructor pops the same flows. -/
theorem drain (fuel : ℕ) (later : Later ahead this this') :
    Exec.Mirrors (FlowEvent.Later ahead) (Later ahead) (ModFlow.drain fuel this)
      (ModFlow.drain fuel this') := by
  induction fuel generalizing this this' with
  | zero => exact .pure later
  | succ fuel ih =>
      obtain ⟨clock, flows, evIpv4, evIpv6, updateMap⟩ := later
      obtain ⟨same, popped, -⟩ := flows.pop
      unfold ModFlow.drain
      revert same popped
      generalize this.flowTable.pop = left
      generalize this'.flowTable.pop = right
      obtain ⟨_, flowTable⟩ := left
      obtain ⟨found, flowTable'⟩ := right
      rintro rfl popped
      cases found with
      | none => exact .pure ⟨clock, flows, evIpv4, evIpv6, updateMap⟩
      | some id => exact ih ⟨clock, popped, evIpv4, evIpv6, updateMap⟩

/-- The destructor reports nothing in either case. -/
theorem destroy (later : Later ahead this this') :
    Exec.Mirrors (FlowEvent.Later ahead) (Later ahead) this.destroy this'.destroy := by
  obtain ⟨clock, flows, evIpv4, evIpv6, updateMap⟩ := later
  have turns : this'.flowTable.table.purge.exp.length = this.flowTable.table.purge.exp.length := by
    rw [flows.table]
  unfold ModFlow.destroy
  dsimp only
  rw [turns]
  exact drain _ ⟨clock, flows.purge, evIpv4, evIpv6, updateMap⟩

end Later

end ModFlow

end Devourer
