import Devourer.Modules.Logged

/-! # The program

`Devourer` builds the three modules, registers them with the decoder, and hands them the
logger when a capture starts. Packets come from a capture or from `input`; in both cases
the decoder calls `recv` of the modules registered for each event it decodes. What the
decoder, the capture and the logger's destinations do is not part of the program: the
calls take it as it comes.
-/

set_option linter.dupNamespace false

namespace Devourer

/-- The modules. -/
inductive ModuleId where
  | modDns
  | modFlow
  | modLocal
  deriving DecidableEq

namespace ModuleId

/-- `recv_event`. -/
def recvEvent : ModuleId → List String
  | .modDns => ["dns.packet"]
  | .modFlow => ["ipv4.packet", "ipv6.packet"]
  | .modLocal => ModLocal.recvEvents

/-- `task_interval`. -/
def taskInterval : ModuleId → ℤ
  | .modDns => 1
  | .modFlow => 1
  | .modLocal => 1

end ModuleId

/-- Where a `fluent::Logger` sends its messages. -/
inductive Destination where
  | forward (host : String) (port : Option UInt32)
  | dumpfd (fd : ℕ)
  | dumpfile (path : String)
  | msgqueue
  deriving DecidableEq

/-- `fluent::Logger`, as the program sets it up. -/
structure Logger where
  tagPrefix : String
  destinations : List Destination
  deriving DecidableEq

/-- What `swarm::NetDec` answers when a handler is registered. -/
structure NetDec where
  lookupEventId : String → EvId
  /-- `set_handler` returns `HDLR_NULL`. -/
  refuses : EvId → ModuleId → Bool

/-- An event that the decoder finds in a packet, with what the memory of a query built for
it happens to hold. -/
structure Decoded where
  eid : EvId
  p : Property
  arp : ArpValues
  memory : Memory

/-- What `start` finds of `swarm::NetCap`, and the packets of the capture. -/
structure NetCap where
  ready : Bool
  /-- `set_periodic_task` returns `TASK_NULL`. -/
  refusesTask : ModuleId → Bool
  errmsg : String
  packets : List (List Decoded)

/-- What happens in a call: uses of the logger by the modules, what the modules report, and
exceptions. -/
inductive DevourerEvent where
  | deref (id : ModuleId) (isSet : Bool)
  | dns (event : DnsEvent)
  | flow (event : FlowEvent)
  | loc (event : LocalEvent)
  | threw (errmsg : String)

/-- What happens in a module. -/
def DevourerEvent.of {ε : Type} (id : ModuleId) (name : ε → DevourerEvent) :
    Logged ε → DevourerEvent
  | .deref isSet => .deref id isSet
  | .event reported => name reported

/-- `isspace`. -/
def isSpace (char : Char) : Bool := char.toNat = 32 ∨ 9 ≤ char.toNat ∧ char.toNat ≤ 13

/-- The value of a digit; what is no digit has one beyond every base. -/
def digitValue (char : Char) : ℕ :=
  if '0' ≤ char ∧ char ≤ '9' then char.toNat - 48
  else if 'a' ≤ char ∧ char ≤ 'z' then char.toNat - 87
  else if 'A' ≤ char ∧ char ≤ 'Z' then char.toNat - 55
  else 36

/-- `strtoul` with base zero: the number at the front of the text, and what follows it. -/
def strtoul (text : List Char) : UInt64 × List Char :=
  let body := text.dropWhile isSpace
  let negative := body.head? = some '-'
  let body := if body.head? = some '-' ∨ body.head? = some '+' then body.tail else body
  let (base, body) := match body with
    | '0' :: mark :: digit :: rest =>
        if (mark = 'x' ∨ mark = 'X') ∧ digitValue digit < 16 then (16, digit :: rest) else (8, body)
    | '0' :: _ => (8, body)
    | _ => (10, body)
  let (digits, rest) := body.span fun char => digitValue char < base
  let value := digits.foldl (fun value digit => base * value + digitValue digit) 0
  if digits = [] then (0, text)
  else if 2 ^ 64 ≤ value then (UInt64.ofNat (2 ^ 64 - 1), rest)
  else if negative then (-UInt64.ofNat value, rest)
  else (UInt64.ofNat value, rest)

/-- `Devourer`, with the handlers that `netdec_` knows and `fluent_` of each module. -/
structure Devourer where
  handlers : List (EvId × ModuleId)
  logger : Logger
  modDns : ModDns
  modFlow : ModFlow
  modLocal : ModLocal
  fluent : ModuleId → Bool
  modules : List ModuleId

namespace Devourer

def bindEventId (id : ModuleId) (evName : String) (eid : EvId) (this : Devourer) : Devourer :=
  match id with
  | .modDns => this
  | .modFlow => { this with modFlow := this.modFlow.bindEventId evName eid }
  | .modLocal => { this with modLocal := this.modLocal.bindEventId evName eid }

/-- Register a module for an event. -/
def register (netdec : NetDec) (id : ModuleId) (this : Devourer) (evName : String) :
    Option Devourer :=
  let eid := netdec.lookupEventId evName
  if netdec.refuses eid id then none
  else some ({ this with handlers := this.handlers ++ [(eid, id)] }.bindEventId id evName eid)

/-- `install_module`. -/
def installModule (netdec : NetDec) (this : Devourer) (id : ModuleId) : Option Devourer :=
  (id.recvEvent.foldlM (register netdec id) this).map fun this =>
    { this with modules := this.modules ++ [id] }

/-- The constructor, unless it throws; `ModFlow` starts with the event ids that its memory
happens to hold. -/
def new (netdec : NetDec) (evIpv4 evIpv6 : EvId) : Option Devourer :=
  let this : Devourer :=
    { handlers := []
      logger := ⟨"", []⟩
      modDns := .new
      modFlow := .new evIpv4 evIpv6
      modLocal := .new
      fluent := fun _ => false
      modules := [] }
  ([.modDns, .modFlow, .modLocal].foldlM (installModule netdec) this).map fun this =>
    { this with logger := { this.logger with tagPrefix := "devourer" } }

/-- Call `recv` of a module. -/
def recv (id : ModuleId) (event : Decoded) (this : Devourer) : Exec DevourerEvent Devourer :=
  match id with
  | .modDns => do
      let modDns ← (this.modDns.recvWith (this.fluent .modDns) event.memory event.p).mapEvents
        (.of .modDns .dns)
      pure { this with modDns := modDns }
  | .modFlow => do
      let modFlow ← (this.modFlow.recvWith (this.fluent .modFlow) this.modDns event.eid
        event.p).mapEvents (.of .modFlow .flow)
      pure { this with modFlow := modFlow }
  | .modLocal => do
      let modLocal ← (this.modLocal.recvWith (this.fluent .modLocal) event.eid event.p
        event.arp).mapEvents (.of .modLocal .loc)
      pure { this with modLocal := modLocal }

/-- The calls of `recv` that the decoder makes for the events of a packet. -/
def dispatches (events : List Decoded) (this : Devourer) : List (ModuleId × Decoded) :=
  events.flatMap fun event =>
    (this.handlers.filter fun handler => handler.1 = event.eid).map fun handler =>
      (handler.2, event)

/-- Calls of `recv` in a row. -/
def receive : Devourer → List (ModuleId × Decoded) → Exec DevourerEvent Devourer :=
  Exec.run fun this dispatch => this.recv dispatch.1 dispatch.2

/-- `input`. -/
def input (events : List Decoded) (this : Devourer) : Exec DevourerEvent Devourer :=
  this.receive (this.dispatches events)

def addDestination (destination : Destination) (this : Devourer) : Devourer :=
  { this with logger :=
    { this.logger with destinations := this.logger.destinations ++ [destination] } }

/-- `setdst_fluentd`. -/
def setdstFluentd (dst : String) (this : Devourer) : Exec DevourerEvent Devourer :=
  match dst.toList.span (· ≠ ':') with
  | (_, []) => pure (this.addDestination (.forward dst none))
  | (host, _ :: strPort) => do
      let (port, rest) := strtoul strPort
      -- The text ends where `c_str` has its first null.
      if rest.headD (Char.ofNat 0) ≠ Char.ofNat 0 then
        Exec.emit (.threw ("Invalid port number: " ++ String.ofList strPort))
        pure this
      else pure (this.addDestination (.forward (String.ofList host) (some port.toUInt32)))

/-- `setdst_filestream`. -/
def setdstFilestream (fpath : String) (this : Devourer) : Devourer :=
  this.addDestination (if fpath = "-" then .dumpfd 1 else .dumpfile fpath)

/-- `setdst_msgqueue`. -/
def setdstMsgqueue (this : Devourer) : Devourer := this.addDestination .msgqueue

/-- The loop of `start` over the modules, and whether it ended without an exception. -/
def setupModules (netcap : NetCap) : List ModuleId → Devourer → Bool × Devourer
  | [], this => (true, this)
  | id :: rest, this =>
      if 0 < id.taskInterval ∧ netcap.refusesTask id = true then (false, this)
      else setupModules netcap rest { this with fluent := Function.update this.fluent id true }

/-- `start`. -/
def start (netcap : NetCap) (this : Devourer) : Exec DevourerEvent Devourer :=
  if netcap.ready = false then do
    Exec.emit (.threw netcap.errmsg)
    pure this
  else
    match setupModules netcap this.modules this with
    | (false, this) => do
        Exec.emit (.threw netcap.errmsg)
        pure this
    | (true, this) => this.receive (this.dispatches netcap.packets.flatten)

/-- A call of the public interface. -/
inductive Call where
  | setdstFluentd (dst : String)
  | setdstFilestream (fpath : String)
  | setdstMsgqueue
  | start (netcap : NetCap)
  | input (events : List Decoded)

def call (call : Call) (this : Devourer) : Exec DevourerEvent Devourer :=
  match call with
  | .setdstFluentd dst => this.setdstFluentd dst
  | .setdstFilestream fpath => pure (this.setdstFilestream fpath)
  | .setdstMsgqueue => pure this.setdstMsgqueue
  | .start netcap => this.start netcap
  | .input events => this.input events

/-- A sequence of calls; an exception ends its call, and the caller may go on. -/
def run : Devourer → List Call → Exec DevourerEvent Devourer :=
  Exec.run fun this call => this.call call

/-- Delete a module. -/
def deleteModule (id : ModuleId) (this : Devourer) : Exec DevourerEvent Devourer :=
  match id with
  | .modDns => do
      let modDns ← (this.modDns.destroyWith (this.fluent .modDns)).mapEvents (.of .modDns .dns)
      pure { this with modDns := modDns }
  | .modFlow => do
      let modFlow ← this.modFlow.destroy.mapEvents .flow
      pure { this with modFlow := modFlow }
  | .modLocal => pure this

/-- The destructor. -/
def destroy (this : Devourer) : Exec DevourerEvent Devourer :=
  Exec.run (fun this id => this.deleteModule id) this this.modules

/-- The whole life of a `Devourer` after its construction. -/
def life (calls : List Call) (this : Devourer) : Exec DevourerEvent Devourer :=
  this.run calls >>= destroy

end Devourer

end Devourer
