import Devourer.Modules.Dns

/-! # The flow module

`ModFlow` gathers packets into flows and reports each flow when it is first seen
and when it has been quiet for long enough. A flow is kept in a timer hash table
under its hash value and its session label. Every call first moves the clock to
the second of the packet and deals with the flows whose ticks ran out: a flow
with packets since its last refresh is put again, any other is logged and
deleted.

Besides the messages it emits, a call of `recv` reports which flow it counts the
packet in and how the table answered each put, an answer the source ignores.
-/

namespace Devourer

/-- What tells flows apart: the hash value and the session label. -/
structure FlowKey where
  hv : UInt64
  label : Bytes
  deriving DecidableEq

/-- `Flow`. -/
structure Flow where
  hv : UInt64
  key : Bytes
  createdAt : ℤ
  refreshedAt : ℤ
  updatedAt : ℤ
  initDir : FlowDir
  lAddr : String
  rAddr : String
  lName : String
  rName : String
  lPort : Int32
  rPort : Int32
  lPkt : Int32
  rPkt : Int32
  lSize : Int32
  rSize : Int32
  proto : String
  hvHex : String

instance : Inhabited FlowDir := ⟨.nil⟩

deriving instance Inhabited for Flow

namespace Flow

/-- The constructor. -/
def new (p : Property) (src dst : String) : Flow where
  hv := p.hashValue
  key := p.ssnLabel
  createdAt := p.tvSec
  refreshedAt := p.tvSec
  updatedAt := p.tvSec
  initDir := p.dir
  lAddr := match p.dir with
    | .l2r => p.srcAddr
    | .r2l => p.dstAddr
    | .nil => ""
  rAddr := match p.dir with
    | .l2r => p.dstAddr
    | .r2l => p.srcAddr
    | .nil => ""
  lName := match p.dir with
    | .l2r => src
    | .r2l => dst
    | .nil => ""
  rName := match p.dir with
    | .l2r => dst
    | .r2l => src
    | .nil => ""
  lPort := match p.dir with
    | .l2r => p.srcPort
    | .r2l => p.dstPort
    | .nil => 0
  rPort := match p.dir with
    | .l2r => p.dstPort
    | .r2l => p.srcPort
    | .nil => 0
  lPkt := 0
  rPkt := 0
  lSize := 0
  rSize := 0
  proto := p.proto
  hvHex := p.hashHex

def flowKey (flow : Flow) : FlowKey := ⟨flow.hv, flow.key⟩

/-- `hash()` and `match()`. -/
def virt : Virtual Flow Bytes where
  hash flow := flow.hv
  matches? flow key := flow.key = key

/-- Add a packet and its length to the counters of its direction. The sum of an
`int` and a `size_t` is stored back into the `int`. -/
def update (p : Property) (flow : Flow) : Flow :=
  match p.dir with
  | .l2r =>
      { flow with
        updatedAt := p.tvSec
        lPkt := flow.lPkt + 1
        lSize := flow.lSize + Int32.ofNat p.len.toNat }
  | .r2l =>
      { flow with
        updatedAt := p.tvSec
        rPkt := flow.rPkt + 1
        rSize := flow.rSize + Int32.ofNat p.len.toNat }
  | .nil => { flow with updatedAt := p.tvSec }

def refresh (tvSec : ℤ) (flow : Flow) : Flow := { flow with refreshedAt := tvSec }

def remain (flow : Flow) : ℤ :=
  if flow.refreshedAt ≤ flow.updatedAt then flow.updatedAt - flow.refreshedAt else 0

/-- A `time_t` turned into an `unsigned int`. -/
def unsignedOfTime (time : ℤ) : ℤ := time % 2 ^ 32

/-- The names of the fields of `flow.log` about one end. -/
structure EndFields where
  addr : String
  port : String
  size : String
  pkt : String
  name : String

def client : EndFields := ⟨"c_addr", "c_port", "c_size", "c_pkt", "c_name"⟩

def server : EndFields := ⟨"s_addr", "s_port", "s_size", "s_pkt", "s_name"⟩

/-- The fields of `flow.log` about the left end and the right one. -/
def setEnds (left right : EndFields) (flow : Flow) (msg : Message) : Message :=
  msg.set left.addr (.text flow.lAddr)
    |>.set right.addr (.text flow.rAddr)
    |>.set left.port (.int flow.lPort.toInt)
    |>.set right.port (.int flow.rPort.toInt)
    |>.set left.size (.int flow.lSize.toInt)
    |>.set right.size (.int flow.rSize.toInt)
    |>.set left.pkt (.int flow.lPkt.toInt)
    |>.set right.pkt (.int flow.rPkt.toInt)
    |>.setName left.name flow.lName
    |>.setName right.name flow.rName

/-- `build_message` for `flow.log`, which asserts that the flow has a direction. -/
def buildMessage (flow : Flow) : Option Message :=
  let msg := (Message.retain "flow.log")
    |>.set "proto" (.text flow.proto)
    |>.set "init_ts" (.int (unsignedOfTime flow.createdAt))
    |>.set "last_ts" (.int (unsignedOfTime flow.updatedAt))
    |>.set "hash" (.text flow.hvHex)
    |>.setTs (unsignedOfTime flow.createdAt)
  match flow.initDir with
  | .l2r => some (setEnds client server flow msg)
  | .r2l => some (setEnds server client flow msg)
  | .nil => none

end Flow

/-- What a call of `ModFlow::recv` does that can be told from outside, and the
answers of the table to its puts. -/
inductive FlowEvent where
  | emitNew (id : ℕ) (key : FlowKey) (msg : Message)
  | emitLog (id : ℕ) (key : FlowKey) (msg : Message)
  | put (id : ℕ) (ttl : ℕ) (taken : Bool)
  | counted (id : ℕ) (p : Property)
  deriving DecidableEq

/-- `ModFlow`. -/
structure ModFlow where
  flowTable : Pool Flow
  evIpv4 : EvId
  evIpv6 : EvId
  lastTs : ℤ
  updateMap : String → Option UInt64

namespace ModFlow

/-- `flow_timeout_`. -/
def flowTimeout : ℤ := 600

/-- The constructor; the event ids are what the memory holds until they are
bound. -/
def new (evIpv4 evIpv6 : EvId) : ModFlow where
  flowTable := .new 3600
  evIpv4 := evIpv4
  evIpv6 := evIpv6
  lastTs := 0
  updateMap := fun _ => none

def bindEventId (evName : String) (eid : EvId) (this : ModFlow) : ModFlow :=
  if evName = "ipv4.packet" then { this with evIpv4 := eid }
  else if evName = "ipv6.packet" then { this with evIpv6 := eid }
  else this

/-- The key of a packet. -/
def keyOf (p : Property) : FlowKey := ⟨p.hashValue, p.ssnLabel⟩

/-- One turn of the eviction loop, for the flow just popped. -/
def expire (p : Property) (id : ℕ) (this : ModFlow) : Exec FlowEvent ModFlow :=
  let flow := this.flowTable.object id
  if 0 < flow.remain then do
    let ttl := sizeOfTime flow.remain
    let (taken, flowTable) := this.flowTable.put ttl id
    Exec.emit (.put id ttl taken)
    pure { this with flowTable := flowTable.modify id (Flow.refresh p.tvSec) }
  else do
    let msg ← Exec.ofOption flow.buildMessage
    Exec.emit (.emitLog id flow.flowKey msg)
    pure this

/-- The eviction loop. -/
def evict (p : Property) : ℕ → ModFlow → Exec FlowEvent ModFlow
  | 0, this => pure this
  | fuel + 1, this =>
      match this.flowTable.pop with
      | (none, _) => pure this
      | (some id, flowTable) => do
          let this ← expire p id { this with flowTable := flowTable }
          evict p fuel this

/-- The first part of `recv`: move the clock to the second of the packet. -/
def tick (p : Property) (this : ModFlow) : Exec FlowEvent ModFlow :=
  if this.lastTs = 0 then pure { this with lastTs := p.tvSec }
  else if this.lastTs < p.tvSec then
    let diff := p.tvSec - this.lastTs
    let flowTable := this.flowTable.prog (sizeOfTime diff)
    evict p (flowTable.table.exp.length + 1)
      { this with lastTs := p.tvSec, flowTable := flowTable }
  else pure this

/-- The message for a new flow. -/
def newMessage (p : Property) (flow : Flow) (src dst : String) : Message :=
  let msg := (Message.retain "flow.new").setTs p.tvSec
    |>.set "src_addr" (.text p.srcAddr)
    |>.set "dst_addr" (.text p.dstAddr)
    |>.set "hash" (.text flow.hvHex)
    |>.setName "src_name" src
    |>.setName "dst_name" dst
    |>.set "proto" (.text p.proto)
  if p.hasPort = true then
    msg.set "src_port" (.int p.srcPort.toInt) |>.set "dst_port" (.int p.dstPort.toInt)
  else msg

/-- Build a flow for the packet, report it and put it in the table. -/
def newFlow (dns : ModDns) (p : Property) (this : ModFlow) : Exec FlowEvent (ℕ × ModFlow) := do
  let src ← Exec.ofOption (dns.resolvAddr p.src.bytes ModDns.recurMaxDefault)
  let dst ← Exec.ofOption (dns.resolvAddr p.dst.bytes ModDns.recurMaxDefault)
  let flow := Flow.new p src dst
  let id := this.flowTable.built
  Exec.emit (.emitNew id flow.flowKey (newMessage p flow src dst))
  let ttl := sizeOfTime flowTimeout
  let (taken, flowTable) := (this.flowTable.build flow).put ttl id
  Exec.emit (.put id ttl taken)
  pure (id, { this with flowTable := flowTable })

/-- The bytes counted under a hash string, with those of one more packet. -/
def addBytes (map : String → Option UInt64) (hex : String) (len : UInt64) :
    String → Option UInt64 :=
  Function.update map hex (some (match map hex with
    | none => len
    | some total => total + len))

/-- Count a packet in a flow. -/
def count (p : Property) (id : ℕ) (this : ModFlow) : Exec FlowEvent ModFlow := do
  let flowTable := this.flowTable.modify id (Flow.update p)
  Exec.emit (.counted id p)
  pure { this with
    flowTable := flowTable
    updateMap := addBytes this.updateMap (flowTable.object id).hvHex p.len }

/-- The second part of `recv`, for an IP packet. -/
def packet (dns : ModDns) (p : Property) (this : ModFlow) : Exec FlowEvent ModFlow :=
  match this.flowTable.get Flow.virt p.hashValue p.ssnLabel with
  | some id => this.count p id
  | none => this.newFlow dns p >>= fun (id, this) => this.count p id

/-- `ModFlow::recv`, with the DNS module as it is at the time of the call. -/
def recv (dns : ModDns) (eid : EvId) (p : Property) (this : ModFlow) : Exec FlowEvent ModFlow :=
  this.tick p >>= fun this =>
    if eid = this.evIpv4 ∨ eid = this.evIpv6 then this.packet dns p else pure this

/-- The loop of the destructor: pop the nodes and delete the flows. -/
def drain : ℕ → ModFlow → Exec FlowEvent ModFlow
  | 0, this => pure this
  | fuel + 1, this =>
      match this.flowTable.pop with
      | (none, _) => pure this
      | (some _, flowTable) => drain fuel { this with flowTable := flowTable }

/-- The destructor. -/
def destroy (this : ModFlow) : Exec FlowEvent ModFlow :=
  let flowTable := { this.flowTable with table := this.flowTable.table.purge }
  drain (flowTable.table.exp.length + 1) { this with flowTable := flowTable }

/-- One call of `recv` as an input of a run. -/
structure Input where
  dns : ModDns
  eid : EvId
  p : Property

/-- A call with a packet of the event `4`, for the runs on fixed inputs. -/
def Input.sample (tvSec : UInt32) (hashValue : UInt64) : Input :=
  ⟨ModDns.new, 4, Property.sample tvSec hashValue⟩

/-- A sequence of calls. -/
def run : ModFlow → List Input → Exec FlowEvent ModFlow :=
  Exec.run fun this input => this.recv input.dns input.eid input.p

end ModFlow

end Devourer
