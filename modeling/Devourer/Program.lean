import Devourer.Foundation.Simulation
import Devourer.Foundation.View
import Devourer.Handover

/-! # The program is its three modules

Handlers, event ids, the logger and the order in which things are set up do not matter to
what the program reports: as long as the modules find their logger, the program reports what
a `Monitor` does, the three modules to which the decoded events are handed by their names
(`life_eq_monitor`).
-/

set_option linter.dupNamespace false

namespace Devourer

/-- What the modules report. -/
inductive Report where
  | dns (event : DnsEvent)
  | flow (event : FlowEvent)
  | loc (event : LocalEvent)

/-- What is reported, besides uses of the logger and exceptions. -/
def DevourerEvent.report? : DevourerEvent → Option Report
  | .dns event => some (.dns event)
  | .flow event => some (.flow event)
  | .loc event => some (.loc event)
  | .deref _ _ => none
  | .threw _ => none

/-! ## The logger does not matter where it is set -/

namespace ModDns

/-- A packet that finds the logger set is handled as the DNS module does. -/
theorem recvWith_erase {fluent : Bool} {memory : Memory} {p : Property} {this : ModDns}
    (uses : Logged.Uses true (this.recvWith fluent memory p)) :
    Logged.erase (this.recvWith fluent memory p) = this.recv memory p := by
  rw [← recvWith_true]
  rcases (recvWith_uses_iff fluent memory p this).mp uses with rfl | query
  · rfl
  · rw [recvWith_query query, recvWith_query query]

/-- The loop of a destructor that finds the logger set. -/
theorem flushQueryWith_erase {fluent : Bool} (fuel : ℕ) {this : ModDns}
    (uses : Logged.Uses true (flushQueryWith fluent fuel this)) :
    Logged.erase (flushQueryWith fluent fuel this) = flushQuery fuel this := by
  cases fluent with
  | true => exact flushQueryWith_true fuel this
  | false =>
      induction fuel generalizing this with
      | zero => rfl
      | succ fuel ih =>
          revert uses
          unfold flushQueryWith flushQuery
          obtain ⟨found, queryTable⟩ := this.queryTable.pop
          cases found with
          | none => exact fun _ => rfl
          | some id =>
              cases reply : (queryTable.object id).hasReply with
              | false =>
                  simp only [reply, ↓reduceIte]
                  exact fun uses => (Bool.false_ne_true (uses false List.mem_cons_self)).elim
              | true =>
                  simp only [reply, Bool.true_eq_false, ↓reduceIte]
                  exact ih

/-- A destructor that finds the logger set. -/
theorem destroyWith_erase {fluent : Bool} {this : ModDns}
    (uses : Logged.Uses true (this.destroyWith fluent)) :
    Logged.erase (this.destroyWith fluent) = this.destroy :=
  flushQueryWith_erase _ uses

end ModDns

/-- A packet that finds the logger set is handled as the flow module does. -/
theorem ModFlow.recvWith_erase {fluent : Bool} {dns : ModDns} {eid : EvId} {p : Property}
    {this : ModFlow} (idle : fluent = false → this.Idle)
    (uses : Logged.Uses true (this.recvWith fluent dns eid p)) :
    Logged.erase (this.recvWith fluent dns eid p) = this.recv dns eid p := by
  rw [← recvWith_true]
  cases fluent with
  | true => rfl
  | false =>
      have other := ((idle rfl).recvWith_false dns eid p).1.mp uses
      obtain ⟨ticked, same, -, four, six⟩ := (idle rfl).tickWith p
      rw [← four, ← six] at other
      unfold recvWith
      rw [same, same, Exec.pure_bind, Exec.pure_bind, if_neg other, if_neg other]

/-- A packet that finds the logger set is handled as the local module does. -/
theorem ModLocal.recvWith_erase {fluent : Bool} {eid : EvId} {p : Property} {arp : ArpValues}
    {this : ModLocal} (uses : Logged.Uses true (this.recvWith fluent eid p arp)) :
    Logged.erase (this.recvWith fluent eid p arp) = this.recv eid p arp := by
  rw [← recvWith_true]
  rcases (recvWith_uses_iff fluent eid p arp this).mp uses with rfl | other
  · rfl
  · unfold recvWith
    rw [if_neg other, if_neg other]

/-! ## The modules alone -/

/-- The module that registered for an event. -/
def NetDec.route (netdec : NetDec) (eid : EvId) : Option ModuleId :=
  if eid = netdec.lookupEventId "dns.packet" then some .modDns
  else if eid = netdec.lookupEventId "ipv4.packet" ∨ eid = netdec.lookupEventId "ipv6.packet" then
    some .modFlow
  else if eid = netdec.lookupEventId "arp.request" ∨ eid = netdec.lookupEventId "mdns.packet" then
    some .modLocal
  else none

/-- The events that the modules register for have different ids. -/
def NetDec.Distinct (netdec : NetDec) : Prop :=
  ((ModuleId.installed.flatMap ModuleId.recvEvent).map netdec.lookupEventId).Nodup

instance : DecidablePred NetDec.Distinct := fun _ => inferInstanceAs (Decidable (List.Nodup _))

/-- The three modules. -/
structure Monitor where
  dns : ModDns
  flow : ModFlow
  loc : ModLocal

namespace Monitor

def new (netdec : NetDec) : Monitor where
  dns := .new
  flow := .new (netdec.lookupEventId "ipv4.packet") (netdec.lookupEventId "ipv6.packet")
  loc := ⟨[netdec.lookupEventId "arp.request", netdec.lookupEventId "mdns.packet"]⟩

/-- Hand an event to a module. -/
def hand (id : ModuleId) (event : Decoded) (this : Monitor) : Exec Report Monitor :=
  match id with
  | .modDns => do
      let dns ← (this.dns.recv event.memory event.p).mapEvents .dns
      pure { this with dns := dns }
  | .modFlow => do
      let flow ← (this.flow.recv this.dns event.eid event.p).mapEvents .flow
      pure { this with flow := flow }
  | .modLocal => do
      let loc ← (this.loc.recv event.eid event.p event.arp).mapEvents .loc
      pure { this with loc := loc }

/-- Hand events to modules in a row. -/
def hands : Monitor → List (ModuleId × Decoded) → Exec Report Monitor :=
  Exec.run fun this dispatch => this.hand dispatch.1 dispatch.2

def recv (netdec : NetDec) (event : Decoded) (this : Monitor) : Exec Report Monitor :=
  match netdec.route event.eid with
  | none => pure this
  | some id => this.hand id event

def run (netdec : NetDec) (this : Monitor) (events : List Decoded) : Exec Report Monitor :=
  Exec.run (fun this event => this.recv netdec event) this events

/-- Delete a module. -/
def deleteModule (id : ModuleId) (this : Monitor) : Exec Report Monitor :=
  match id with
  | .modDns => do
      let dns ← this.dns.destroy.mapEvents .dns
      pure { this with dns := dns }
  | .modFlow => do
      let flow ← this.flow.destroy.mapEvents .flow
      pure { this with flow := flow }
  | .modLocal => pure this

/-- Packets from the first to the last, and the end, at which queries without reply are
reported. -/
def life (netdec : NetDec) (events : List Decoded) (this : Monitor) : Exec Report Monitor :=
  this.run netdec events >>= fun this =>
    Exec.run (fun this id => this.deleteModule id) this ModuleId.installed

end Monitor

/-- Handing over one event after the other. -/
theorem Monitor.run_eq_hands (netdec : NetDec) (this : Monitor) (events : List Decoded) :
    this.run netdec events = this.hands (events.flatMap fun event =>
      (netdec.route event.eid).toList.map fun id => (id, event)) := by
  have one : ∀ (this : Monitor) (event : Decoded), this.recv netdec event =
      this.hands ((netdec.route event.eid).toList.map fun id => (id, event)) := by
    intro this event
    unfold recv
    cases netdec.route event.eid with
    | none => rfl
    | some id =>
        unfold hands
        exact (Exec.run_singleton (fun (this : Monitor) (dispatch : ModuleId × Decoded) =>
          this.hand dispatch.1 dispatch.2) this (id, event)).symm
  induction events generalizing this with
  | nil => rfl
  | cons event rest ih =>
      unfold hands at ih one ⊢
      rw [List.flatMap_cons, Exec.run_append, ← one]
      exact congrArg _ (funext ih)

namespace Devourer

/-- The modules of the program. -/
def monitor (this : Devourer) : Monitor := ⟨this.modDns, this.modFlow, this.modLocal⟩

/-- What is decoded in a call and reaches the modules. -/
def Call.decoded : Call → List Decoded
  | .start netcap =>
      if netcap.ready = true ∧ ModuleId.installed.all netcap.registers then netcap.packets.flatten
      else []
  | .input events => events
  | _ => []

/-- What holds of a `Devourer` between two calls, with its handlers. -/
structure Plugged (netdec : NetDec) (this : Devourer) : Prop extends this.Wired netdec where
  handlers : this.handlers = ModuleId.installed.flatMap fun id =>
    id.recvEvent.map fun evName => (netdec.lookupEventId evName, id)

variable {netdec : NetDec} {this after : Devourer}

/-- The constructor plugs the modules in, and they are new. -/
theorem Plugged.new {evIpv4 evIpv6 : EvId} (built : new netdec evIpv4 evIpv6 = some this) :
    this.Plugged netdec ∧ this.monitor = Monitor.new netdec := by
  have wired := (Wired.new built).1
  simp only [Devourer.new, installModule, ModuleId.recvEvent, ModLocal.recvEvents,
    List.foldlM_cons, List.foldlM_nil, Option.bind_eq_bind, Option.map_eq_some_iff,
    Option.bind_eq_some_iff, register_eq_some, Option.pure_def, Option.some.injEq, and_assoc,
    exists_and_left, exists_eq_left', bindEventId] at built
  obtain ⟨-, -, -, -, -, rfl⟩ := built
  exact ⟨⟨wired, rfl⟩, rfl⟩

/-- The handlers of an event are of one module at most. -/
theorem Plugged.handlers_of (plugged : this.Plugged netdec) (distinct : netdec.Distinct)
    (eid : EvId) : (this.handlers.filter fun handler => handler.1 = eid).map Prod.snd =
      (netdec.route eid).toList := by
  rw [plugged.handlers]
  unfold NetDec.route
  unfold NetDec.Distinct at distinct
  simp only [ModuleId.installed, ModuleId.recvEvent, ModLocal.recvEvents, List.flatMap_cons,
    List.flatMap_nil, List.map_cons, List.map_nil, List.cons_append, List.nil_append,
    List.nodup_cons, List.mem_cons, List.not_mem_nil, not_or, or_false, not_false_eq_true,
    List.nodup_nil, and_true] at distinct ⊢
  generalize netdec.lookupEventId "dns.packet" = dns at distinct ⊢
  generalize netdec.lookupEventId "ipv4.packet" = ipv4 at distinct ⊢
  generalize netdec.lookupEventId "ipv6.packet" = ipv6 at distinct ⊢
  generalize netdec.lookupEventId "arp.request" = arp at distinct ⊢
  generalize netdec.lookupEventId "mdns.packet" = mdns at distinct ⊢
  simp only [List.filter_cons, List.filter_nil]
  grind

/-! ## A call of `recv` -/

/-- What a module reports is reported by the program. -/
theorem view_mapEvents {ε α : Type} {id : ModuleId} {name : ε → DevourerEvent} {name' : ε → Report}
    (same : ∀ reported, (name reported).report? = some (name' reported))
    (outcome : Exec (Logged ε) α) (build : α → Devourer) (build' : α → Monitor)
    (builds : ∀ value, (build value).monitor = build' value) :
    Exec.view DevourerEvent.report? monitor
        (outcome.mapEvents (.of id name) >>= fun value => pure (build value)) =
      (Logged.erase outcome).mapEvents name' >>= fun value => pure (build' value) := by
  have events : ∀ events : List (Logged ε),
      (events.map (DevourerEvent.of id name)).filterMap DevourerEvent.report? =
        (events.filterMap Logged.event?).map name' := by
    intro events
    rw [List.filterMap_map, List.map_filterMap]
    congr 1
    funext event
    cases event with
    | deref isSet => rfl
    | event reported => exact same reported
  rw [Exec.mapEvents_bind_pure, Exec.mapEvents_bind_pure]
  unfold Exec.view Logged.erase
  rw [events, Option.map_map]
  congr 1
  cases outcome.result with
  | none => rfl
  | some value => exact congrArg some (builds value)

/-- **One call of `recv`** that finds the logger set is a call of the module. -/
theorem Plugged.recv (plugged : this.Plugged netdec) {id : ModuleId} {event : Decoded}
    (set : LoggerSet (this.recv id event).events) :
    Exec.view DevourerEvent.report? monitor (this.recv id event) = this.monitor.hand id event := by
  cases id with
  | modDns =>
      have uses := (loggerSet_map_of .modDns .dns (fun _ => trivial) _).mp
        (Exec.forall_bind_events.mp set).1
      refine (view_mapEvents (fun _ => rfl) _ _ _ fun _ => rfl).trans ?_
      rw [ModDns.recvWith_erase uses]
      rfl
  | modFlow =>
      have uses := (loggerSet_map_of .modFlow .flow (fun _ => trivial) _).mp
        (Exec.forall_bind_events.mp set).1
      refine (view_mapEvents (fun _ => rfl) _ _ _ fun _ => rfl).trans ?_
      rw [ModFlow.recvWith_erase plugged.idle uses]
      rfl
  | modLocal =>
      have uses := (loggerSet_map_of .modLocal .loc (fun _ => trivial) _).mp
        (Exec.forall_bind_events.mp set).1
      refine (view_mapEvents (fun _ => rfl) _ _ _ fun _ => rfl).trans ?_
      rw [ModLocal.recvWith_erase uses]
      rfl

/-- No packet registers a handler. -/
theorem recv_handlers {id : ModuleId} {event : Decoded}
    (returned : (this.recv id event).result = some after) : after.handlers = this.handlers := by
  cases id with
  | modDns | modFlow | modLocal =>
      obtain ⟨next, -, same⟩ := Exec.bind_result_eq_some.mp returned
      cases same
      rfl

/-- The modules stay plugged in. -/
theorem Plugged.next (plugged : this.Plugged netdec) {id : ModuleId} {event : Decoded}
    (returned : (this.recv id event).result = some after) : after.Plugged netdec :=
  ⟨((plugged.toWired.recv id event).2 after returned).1,
    (recv_handlers returned).trans plugged.handlers⟩

/-- A row of events for the modules. -/
theorem Plugged.hands (plugged : this.Plugged netdec) {dispatches : List (ModuleId × Decoded)}
    (set : LoggerSet (this.receive dispatches).events) :
    Exec.view DevourerEvent.report? monitor (this.receive dispatches) =
      this.monitor.hands dispatches := by
  have seen : Exec.view DevourerEvent.report? monitor (this.receive dispatches) =
      this.monitor.hands (dispatches.flatMap fun dispatch => [dispatch]) := by
    apply Exec.view_run (fun _ this => Plugged netdec this) _ _ plugged set
    · exact fun _ _ _ _ plugged _ returned => Plugged.next plugged returned
    · intro this dispatch _ plugged set
      rw [Exec.run_singleton]
      exact plugged.recv set
  rwa [List.flatMap_singleton'] at seen

/-- **Calls of `recv` in a row.** -/
theorem Plugged.receive (plugged : this.Plugged netdec) (distinct : netdec.Distinct)
    {events : List Decoded} (set : LoggerSet (this.receive (this.dispatches events)).events) :
    Exec.view DevourerEvent.report? monitor (this.receive (this.dispatches events)) =
      this.monitor.run netdec events := by
  rw [plugged.hands set, Monitor.run_eq_hands]
  unfold dispatches
  congr 2
  funext event
  rw [← plugged.handlers_of distinct, List.map_map]
  rfl

/-! ## The public calls -/

/-- The modules stay plugged in over a row of events. -/
theorem Plugged.reached (plugged : this.Plugged netdec) {dispatches : List (ModuleId × Decoded)}
    (returned : (this.receive dispatches).result = some after) : after.Plugged netdec := by
  refine Exec.run_invariant (fun _ _ after => after.Plugged netdec) plugged
    (fun _ _ _ _ before stepped => before.next stepped) dispatches after returned

/-- A capture that is ready and takes all modules runs on its packets; any other does not
begin. -/
theorem Plugged.start (plugged : this.Plugged netdec) (distinct : netdec.Distinct)
    {netcap : NetCap} (set : LoggerSet (this.start netcap).events) :
    Exec.view DevourerEvent.report? monitor (this.start netcap) =
        this.monitor.run netdec (Call.start netcap).decoded ∧
      ∀ after, (this.start netcap).result = some after → after.Plugged netdec := by
  obtain ⟨fluent, same, handed⟩ := setupModules_spec netcap ModuleId.installed this
  have next : ({ this with fluent } : Devourer).Plugged netdec :=
    ⟨plugged.handed fun id isSet => (handed id).mpr (.inl isSet), plugged.handlers⟩
  have decoded : (Call.start netcap).decoded =
      if netcap.ready = true ∧ ModuleId.installed.all netcap.registers then netcap.packets.flatten
      else [] := rfl
  rw [decoded]
  revert set
  unfold Devourer.start
  rw [plugged.modules, same]
  by_cases ready : netcap.ready = true
  swap
  · rw [if_pos (Bool.not_eq_true _ ▸ ready), if_neg fun both => ready both.1]
    refine fun _ => ⟨rfl, fun after returned => ?_⟩
    cases returned
    exact plugged
  rw [if_neg (Bool.not_eq_false _ ▸ ready)]
  cases all : ModuleId.installed.all netcap.registers with
  | false =>
      rw [if_neg fun both => Bool.false_ne_true both.2]
      refine fun _ => ⟨rfl, fun after returned => ?_⟩
      cases returned
      exact next
  | true =>
      rw [if_pos ⟨ready, rfl⟩]
      exact fun set => ⟨next.receive distinct set, fun after returned => next.reached returned⟩

/-- **One public call** that finds the logger set hands the decoded events to the modules. -/
theorem Plugged.call (plugged : this.Plugged netdec) (distinct : netdec.Distinct) {call : Call}
    (set : LoggerSet (this.call call).events) :
    Exec.view DevourerEvent.report? monitor (this.call call) =
        this.monitor.run netdec call.decoded ∧
      ∀ after, (this.call call).result = some after → after.Plugged netdec := by
  cases call with
  | setdstFluentd dst =>
      unfold Devourer.call setdstFluentd
      dsimp only
      split
      · refine ⟨rfl, fun after returned => ?_⟩
        cases returned
        exact { plugged with }
      · split
        · refine ⟨rfl, fun after returned => ?_⟩
          cases returned
          exact plugged
        · refine ⟨rfl, fun after returned => ?_⟩
          cases returned
          exact { plugged with }
  | setdstFilestream fpath =>
      refine ⟨rfl, fun after returned => ?_⟩
      cases returned
      exact { plugged with }
  | setdstMsgqueue =>
      refine ⟨rfl, fun after returned => ?_⟩
      cases returned
      exact { plugged with }
  | start netcap => exact plugged.start distinct set
  | input events =>
      exact ⟨plugged.receive distinct set, fun after returned => plugged.reached returned⟩

/-- **Public calls in a row** that find the logger set hand the decoded events to the modules. -/
theorem Plugged.run (plugged : this.Plugged netdec) (distinct : netdec.Distinct)
    {calls : List Call} (set : LoggerSet (this.run calls).events) :
    Exec.view DevourerEvent.report? monitor (this.run calls) =
      this.monitor.run netdec (calls.flatMap Call.decoded) := by
  apply Exec.view_run (fun _ this => Plugged netdec this) _ _ plugged set
  · exact fun this call _ next plugged set => (Plugged.call plugged distinct set).2 next
  · exact fun this call _ plugged set => (Plugged.call plugged distinct set).1

/-! ## The end -/

/-- A module that finds its logger set is deleted as it is alone. -/
theorem view_deleteModule {id : ModuleId} (set : LoggerSet (this.deleteModule id).events) :
    Exec.view DevourerEvent.report? monitor (this.deleteModule id) =
      this.monitor.deleteModule id := by
  cases id with
  | modDns =>
      have uses := (loggerSet_map_of .modDns .dns (fun _ => trivial) _).mp
        (Exec.forall_bind_events.mp set).1
      refine (view_mapEvents (fun _ => rfl) _ _ _ fun _ => rfl).trans ?_
      rw [ModDns.destroyWith_erase uses]
      rfl
  | modFlow =>
      have here : this.deleteModule .modFlow = _ := Exec.mapEvents_bind_pure ..
      have there : this.monitor.deleteModule .modFlow = _ := Exec.mapEvents_bind_pure ..
      rw [here, there]
      unfold Exec.view
      rw [List.filterMap_map, Option.map_map]
      exact congrArg₂ Exec.mk (congrFun List.filterMap_eq_map _) rfl
  | modLocal => rfl

/-- **A whole life** that finds the logger set is one of the modules. -/
theorem Plugged.life (distinct : netdec.Distinct) {evIpv4 evIpv6 : EvId}
    (built : Devourer.new netdec evIpv4 evIpv6 = some this) {calls : List Call}
    (set : LoggerSet (this.life calls).events) :
    Exec.view DevourerEvent.report? monitor (this.life calls) =
      (Monitor.new netdec).life netdec (calls.flatMap Call.decoded) := by
  obtain ⟨plugged, same⟩ := Plugged.new built
  obtain ⟨running, ending⟩ := Exec.forall_bind_events.mp set
  rw [← same]
  unfold Devourer.life Monitor.life
  rw [← plugged.run distinct running]
  apply Exec.view_bind
  intro last returned
  have modules := ((Wired.new built).1.run (Wired.new built).2 returned).1.modules
  have ends : Exec.view DevourerEvent.report? monitor last.destroy =
      Exec.run (fun this id => this.deleteModule id) last.monitor
        (last.modules.flatMap fun id => [id]) := by
    refine Exec.view_run (fun _ _ => True) (fun _ _ _ _ _ _ _ => trivial) ?_ trivial
      (ending last returned)
    intro this id _ _ set
    rw [Exec.run_singleton]
    exact view_deleteModule set
  rwa [List.flatMap_singleton', modules] at ends

/-- **The program is its modules.** Over the life of a `Devourer` that was constructed by a
decoder with different ids for different events, as long as every use of the logger finds it
set, what is reported is what the modules report that are handed all decoded events, one after
the other, each to the module that registered for it; and the modules end as they do. -/
theorem life_eq_monitor (netdec : NetDec) (distinct : netdec.Distinct) (evIpv4 evIpv6 : EvId)
    (this : Devourer) (built : new netdec evIpv4 evIpv6 = some this) (calls : List Call)
    (set : LoggerSet (this.life calls).events) :
    Exec.view DevourerEvent.report? monitor (this.life calls) =
      (Monitor.new netdec).life netdec (calls.flatMap Call.decoded) :=
  Plugged.life distinct built set

/-- An event of the given second. -/
def eventAt (tvSec : UInt32) (eid : EvId) : Decoded :=
  { sampleEvent eid with p := ModDns.sampleQuery tvSec }

/-- Two IP packets of a flow, and between them a DNS query and its response. -/
def captured : List (List Decoded) :=
  [[eventAt 1 4], [eventAt 1 1], [{ eventAt 2 1 with p := ModDns.sampleReply 2 }], [eventAt 3 4]]

/-- An ARP request and, ten minutes later, a query and IP packets that evict the flow. -/
def handedOver : List Decoded :=
  [eventAt 5 8, eventAt 700 1, eventAt 700 4,
    { eventAt 710 4 with p := Property.sample 710 2 }, eventAt 1400 4]

/-- The events, some of them captured and some given to `input`. -/
def mixedCalls : List Call :=
  [.setdstMsgqueue, .start ⟨true, fun _ => false, "", captured⟩, .input handedOver]

set_option maxRecDepth 20000 in
theorem mixedCalls_set : ∃ this, new sampleNetDec 0 0 = some this ∧
    LoggerSet (this.run mixedCalls).events ∧ LoggerSet (this.life mixedCalls).events := by
  have computed : (new sampleNetDec 0 0).map (fun this =>
      decide (LoggerSet (this.run mixedCalls).events ∧ LoggerSet (this.life mixedCalls).events)) =
        some true := by
    decide +kernel
  obtain ⟨this, built, set⟩ := Option.map_eq_some_iff.mp computed
  exact ⟨this, built, of_decide_eq_true set⟩

/-- What is captured and what is given to `input`, in one row. -/
theorem life_eq_monitor_sample : ∃ this, new sampleNetDec 0 0 = some this ∧
    Exec.view DevourerEvent.report? monitor (this.life mixedCalls) =
      (Monitor.new sampleNetDec).life sampleNetDec (captured.flatten ++ handedOver) := by
  obtain ⟨this, built, -, set⟩ := mixedCalls_set
  exact ⟨this, built, life_eq_monitor sampleNetDec (by decide) 0 0 this built mixedCalls set⟩

end Devourer

end Devourer
