import Devourer.Driver
import Mathlib.Data.List.TakeWhile

/-! # When the modules have their logger

The handlers are registered by the constructor, the logger is handed over by `start` just
before it begins to capture, to one module after the other. What `input` is given earlier
reaches modules whose `fluent_` is null, and so does the destructor when no capture was
started; each module is safe then as long as it has nothing to report
(`loggerSet_iff_patient`).
-/

set_option linter.dupNamespace false

namespace Devourer

/-- A use of the logger finds it set. -/
def DevourerEvent.IsSet : DevourerEvent → Prop
  | .deref _ isSet => isSet = true
  | _ => True

instance : DecidablePred DevourerEvent.IsSet
  | .deref _ isSet => inferInstanceAs (Decidable (isSet = true))
  | .dns _ => inferInstanceAs (Decidable True)
  | .flow _ => inferInstanceAs (Decidable True)
  | .loc _ => inferInstanceAs (Decidable True)
  | .threw _ => inferInstanceAs (Decidable True)

/-- All uses of the logger find it set. -/
def LoggerSet (events : List DevourerEvent) : Prop := ∀ event ∈ events, event.IsSet

instance (events : List DevourerEvent) : Decidable (LoggerSet events) :=
  inferInstanceAs (Decidable (∀ event ∈ events, event.IsSet))

/-- The task of the module is registered, if it has one. -/
def NetCap.registers (netcap : NetCap) (id : ModuleId) : Bool :=
  !decide (0 < id.taskInterval ∧ netcap.refusesTask id = true)

/-- The modules in the order of their installation. -/
def ModuleId.installed : List ModuleId := [.modDns, .modFlow, .modLocal]

namespace Devourer

/-- A call of `start` hands over the logger to the modules up to the first whose task is
refused, if the capture is ready. -/
def Call.Hands (id : ModuleId) : Call → Prop
  | .start netcap => netcap.ready = true ∧ id ∈ ModuleId.installed.takeWhile netcap.registers
  | _ => False

/-- One of the calls hands over the logger. -/
def Handed (calls : List Call) (id : ModuleId) : Prop := ∃ call ∈ calls, call.Hands id

/-- The module has something to report about the event: a DNS response, an IP packet that
may be the first, or an ARP request. -/
def Loud (netdec : NetDec) (event : Decoded) : ModuleId → Prop
  | .modDns => event.p.dnsQuery ≠ 0
  | .modFlow => event.eid = netdec.lookupEventId "ipv4.packet" ∨
      event.eid = netdec.lookupEventId "ipv6.packet"
  | .modLocal => event.eid = netdec.lookupEventId "arp.request"

/-- **The condition.** What is decoded in a call of `input` and reaches a module that was
not handed the logger gives it nothing to report, and if `ModDns` was not handed the logger
at all, it holds no query without reply at the end. -/
structure Patient (netdec : NetDec) (calls : List Call) (start : Devourer) : Prop where
  inputs : ∀ before events, before ++ [.input events] <+: calls → ∀ this,
    (start.run before).result = some this → ∀ earlier id event,
      earlier ++ [(id, event)] <+: this.dispatches events →
        (this.receive earlier).result ≠ none → Handed before id ∨ ¬ Loud netdec event id
  destructor : ∀ this, (start.run calls).result = some this → Handed calls .modDns ∨
    ∀ id ∈ this.modDns.queryTable.table.nodes, (this.modDns.queryAt id).hasReply = true

/-- What holds of a `Devourer` between two calls. -/
structure Wired (netdec : NetDec) (this : Devourer) : Prop where
  modules : this.modules = ModuleId.installed
  evIpv4 : this.modFlow.evIpv4 = netdec.lookupEventId "ipv4.packet"
  evIpv6 : this.modFlow.evIpv6 = netdec.lookupEventId "ipv6.packet"
  arpRequest : this.modLocal.recvEventsId[ModLocal.arpRequest]? =
    some (netdec.lookupEventId "arp.request")
  dns : this.modDns.Kept
  flow : this.modFlow.Kept
  idle : this.fluent .modFlow = false → this.modFlow.Idle

variable {netdec : NetDec} {this after : Devourer}

/-! ## The constructor -/

theorem register_eq_some {id : ModuleId} {evName : String} :
    register netdec id this evName = some after ↔
      netdec.refuses (netdec.lookupEventId evName) id = false ∧
        { this with handlers := this.handlers ++ [(netdec.lookupEventId evName, id)] }.bindEventId
          id evName (netdec.lookupEventId evName) = after := by
  unfold register
  cases refused : netdec.refuses (netdec.lookupEventId evName) id <;> simp [refused]

theorem Wired.new {evIpv4 evIpv6 : EvId} (built : new netdec evIpv4 evIpv6 = some this) :
    this.Wired netdec ∧ ∀ id, this.fluent id = false := by
  simp only [Devourer.new, installModule, ModuleId.recvEvent, ModLocal.recvEvents,
    List.foldlM_cons, List.foldlM_nil, Option.bind_eq_bind, Option.map_eq_some_iff,
    Option.bind_eq_some_iff, register_eq_some, Option.pure_def, Option.some.injEq, and_assoc,
    exists_and_left, exists_eq_left', bindEventId] at built
  obtain ⟨-, -, -, -, -, rfl⟩ := built
  exact ⟨⟨rfl, rfl, rfl, rfl, ModDns.Kept.new, ⟨.new 3600, rfl, rfl, nofun⟩, fun _ => rfl⟩,
    fun _ => rfl⟩

/-! ## A call of `recv` -/

/-- What a module reports finds the logger set exactly if its own uses do. -/
theorem loggerSet_map_of {ε α : Type} (id : ModuleId) (name : ε → DevourerEvent)
    (plain : ∀ reported, (name reported).IsSet) (outcome : Exec (Logged ε) α) :
    LoggerSet (outcome.events.map (.of id name)) ↔ Logged.Uses true outcome := by
  unfold LoggerSet Logged.Uses
  rw [List.forall_mem_map]
  constructor
  · intro all isSet member
    exact all _ member
  · rintro uses (isSet | reported) member
    · exact uses isSet member
    · exact plain reported

theorem Wired.recvDns (wired : this.Wired netdec) (event : Decoded) :
    (LoggerSet (this.recv .modDns event).events ↔
        this.fluent .modDns = true ∨ ¬ Loud netdec event .modDns) ∧
      ∀ after, (this.recv .modDns event).result = some after →
        after.Wired netdec ∧ after.fluent = this.fluent := by
  rw [show this.recv .modDns event = _ from Exec.mapEvents_bind_pure ..,
    loggerSet_map_of .modDns .dns fun _ => trivial, ModDns.recvWith_uses_iff]
  refine ⟨or_congr_right not_not.symm, fun after returned => ?_⟩
  obtain ⟨modDns, handled, rfl⟩ := Option.map_eq_some_iff.mp returned
  exact ⟨{ wired with dns := wired.dns.recv (ModDns.recv_of_recvWith handled) }, rfl⟩

/-- A call of `ModFlow::recv` keeps what holds of the modules. -/
theorem Wired.flowNext (wired : this.Wired netdec) {dns : ModDns} {eid : EvId} {p : Property}
    {modFlow : ModFlow} (returned : (this.modFlow.recv dns eid p).result = some modFlow)
    (idle : this.fluent .modFlow = false → modFlow.Idle) :
    ({ this with modFlow } : Devourer).Wired netdec := by
  have reached : (this.modFlow.run ([] ++ [⟨dns, eid, p⟩])).result = some modFlow :=
    Exec.run_snoc_result.mpr ⟨this.modFlow, rfl, returned⟩
  obtain ⟨four, six⟩ := ModFlow.bound_run wired.flow reached
  exact { wired with
    evIpv4 := four.trans wired.evIpv4
    evIpv6 := six.trans wired.evIpv6
    flow := wired.flow.recv returned
    idle := idle }

theorem Wired.recvFlow (wired : this.Wired netdec) (event : Decoded) :
    (LoggerSet (this.recv .modFlow event).events ↔
        this.fluent .modFlow = true ∨ ¬ Loud netdec event .modFlow) ∧
      ∀ after, (this.recv .modFlow event).result = some after →
        after.Wired netdec ∧ after.fluent = this.fluent := by
  rw [show this.recv .modFlow event = _ from Exec.mapEvents_bind_pure ..,
    loggerSet_map_of .modFlow .flow fun _ => trivial]
  cases handed : this.fluent .modFlow with
  | true =>
      refine ⟨iff_of_true (ModFlow.recvWith_uses true _ _ _ _) (.inl rfl), fun after returned => ?_⟩
      obtain ⟨modFlow, handled, rfl⟩ := Option.map_eq_some_iff.mp returned
      have same : (this.modFlow.recv this.modDns event.eid event.p).result = some modFlow := by
        rw [← ModFlow.recvWith_true]
        exact handled
      refine ⟨wired.flowNext same fun null => ?_, rfl⟩
      cases null.symm.trans handed
  | false =>
      obtain ⟨uses, follows⟩ := (wired.idle handed).recvWith_false this.modDns event.eid event.p
      rw [or_iff_right Bool.false_ne_true, uses, wired.evIpv4, wired.evIpv6]
      refine ⟨Iff.rfl, fun after returned => ?_⟩
      obtain ⟨modFlow, handled, rfl⟩ := Option.map_eq_some_iff.mp returned
      obtain ⟨idle, same⟩ := follows modFlow handled
      exact ⟨wired.flowNext same fun _ => idle, rfl⟩

theorem Wired.recvLocal (wired : this.Wired netdec) (event : Decoded) :
    (LoggerSet (this.recv .modLocal event).events ↔
        this.fluent .modLocal = true ∨ ¬ Loud netdec event .modLocal) ∧
      ∀ after, (this.recv .modLocal event).result = some after →
        after.Wired netdec ∧ after.fluent = this.fluent := by
  rw [show this.recv .modLocal event = _ from Exec.mapEvents_bind_pure ..,
    loggerSet_map_of .modLocal .loc fun _ => trivial, ModLocal.recvWith_uses_iff,
    wired.arpRequest, ne_eq, Option.some.injEq]
  refine ⟨or_congr_right (not_congr eq_comm), fun after returned => ?_⟩
  obtain ⟨modLocal, handled, rfl⟩ := Option.map_eq_some_iff.mp returned
  refine ⟨{ wired with arpRequest := ?_ }, rfl⟩
  rw [ModLocal.recvWith_result handled]
  exact wired.arpRequest

/-- **One call of `recv`** finds the logger set exactly if the module was handed it or has
nothing to report. -/
theorem Wired.recv (wired : this.Wired netdec) (id : ModuleId) (event : Decoded) :
    (LoggerSet (this.recv id event).events ↔ this.fluent id = true ∨ ¬ Loud netdec event id) ∧
      ∀ after, (this.recv id event).result = some after →
        after.Wired netdec ∧ after.fluent = this.fluent := by
  cases id with
  | modDns => exact wired.recvDns event
  | modFlow => exact wired.recvFlow event
  | modLocal => exact wired.recvLocal event

/-! ## The public calls -/

/-- Calls of `recv` keep what holds of the modules, and hand over nothing. -/
theorem Wired.reached (wired : this.Wired netdec) {dispatches : List (ModuleId × Decoded)}
    (returned : (this.receive dispatches).result = some after) :
    after.Wired netdec ∧ after.fluent = this.fluent := by
  refine Exec.run_invariant (fun _ _ after => after.Wired netdec ∧ after.fluent = this.fluent)
    ⟨wired, rfl⟩ (fun _ dispatch middle next before stepped => ?_) dispatches after returned
  obtain ⟨between, same⟩ := (before.1.recv dispatch.1 dispatch.2).2 next stepped
  exact ⟨between, same.trans before.2⟩

/-- **Calls of `recv` in a row.** -/
theorem Wired.receive (wired : this.Wired netdec) (dispatches : List (ModuleId × Decoded)) :
    LoggerSet (this.receive dispatches).events ↔
      ∀ earlier id event, earlier ++ [(id, event)] <+: dispatches →
        (this.receive earlier).result ≠ none → this.fluent id = true ∨ ¬ Loud netdec event id := by
  refine Exec.forall_run_events.trans ?_
  constructor
  · intro each earlier id event front returns
    obtain ⟨middle, returned⟩ := Option.ne_none_iff_exists'.mp returns
    obtain ⟨between, same⟩ := wired.reached returned
    rw [← same]
    exact (between.recv id event).1.mp (each earlier (id, event) front middle returned)
  · rintro calm earlier ⟨id, event⟩ front middle returned
    obtain ⟨between, same⟩ := wired.reached returned
    refine (between.recv id event).1.mpr ?_
    rw [same]
    exact calm earlier id event front (Option.ne_none_iff_exists'.mpr ⟨middle, returned⟩)

/-- The loop of `start` hands the logger to the modules before the first refused. -/
theorem setupModules_spec (netcap : NetCap) (ids : List ModuleId) (this : Devourer) :
    ∃ fluent, setupModules netcap ids this = (ids.all netcap.registers, { this with fluent }) ∧
      ∀ id, fluent id = true ↔ this.fluent id = true ∨ id ∈ ids.takeWhile netcap.registers := by
  induction ids generalizing this with
  | nil => exact ⟨this.fluent, rfl, fun id => (or_iff_left List.not_mem_nil).symm⟩
  | cons first rest ih =>
      unfold setupModules
      by_cases refused : 0 < first.taskInterval ∧ netcap.refusesTask first = true
      · have registers : netcap.registers first = false := by
          simp only [NetCap.registers, refused, and_self, decide_true, Bool.not_true]
        refine ⟨this.fluent, ?_, fun id => ?_⟩
        · rw [if_pos refused, List.all_cons, registers, Bool.false_and]
        · rw [List.takeWhile_cons_of_neg (by simp [registers])]
          exact (or_iff_left List.not_mem_nil).symm
      · have registers : netcap.registers first = true := by
          simp only [NetCap.registers, refused, decide_false, Bool.not_false]
        obtain ⟨fluent, same, handed⟩ :=
          ih { this with fluent := Function.update this.fluent first true }
        refine ⟨fluent, ?_, fun id => ?_⟩
        · rw [if_neg refused, same, List.all_cons, registers, Bool.true_and]
        · rw [handed id, List.takeWhile_cons_of_pos registers, List.mem_cons, ← or_assoc]
          refine or_congr_left ?_
          by_cases self : id = first <;> simp [self]

theorem Wired.handed (wired : this.Wired netdec) {fluent : ModuleId → Bool}
    (more : ∀ id, this.fluent id = true → fluent id = true) :
    ({ this with fluent } : Devourer).Wired netdec :=
  { wired with idle := fun null => wired.idle (by
      by_contra set
      rw [Bool.not_eq_false] at set
      cases null.symm.trans (more _ set)) }

theorem setdstFluentd_spec (dst : String) (this : Devourer) : ∃ events logger,
    this.setdstFluentd dst = ⟨events, some { this with logger }⟩ ∧ LoggerSet events := by
  unfold setdstFluentd
  split
  · exact ⟨[], _, rfl, List.forall_mem_nil _⟩
  · dsimp only
    split
    · exact ⟨_, this.logger, rfl, List.forall_mem_singleton.mpr trivial⟩
    · exact ⟨[], _, rfl, List.forall_mem_nil _⟩

/-- When a call of `start` returns, its modules have the logger, and those that find it
null find nothing to report. -/
theorem Wired.start (wired : this.Wired netdec) (netcap : NetCap) :
    LoggerSet (this.start netcap).events ∧ ∀ after, (this.start netcap).result = some after →
      after.Wired netdec ∧
        ∀ id, after.fluent id = true ↔ this.fluent id = true ∨ (Call.start netcap).Hands id := by
  unfold Devourer.start Call.Hands
  by_cases ready : netcap.ready = true
  swap
  · rw [if_pos (Bool.not_eq_true _ ▸ ready)]
    refine ⟨List.forall_mem_singleton.mpr trivial, fun after returned => ?_⟩
    cases returned
    exact ⟨wired, fun id => (or_iff_left fun hands => ready hands.1).symm⟩
  rw [if_neg (Bool.not_eq_false _ ▸ ready), wired.modules]
  obtain ⟨fluent, same, handed⟩ := setupModules_spec netcap ModuleId.installed this
  have wiredNext := wired.handed fun id set => (handed id).mpr (.inl set)
  rw [same]
  simp only [ready, true_and]
  cases all : ModuleId.installed.all netcap.registers with
  | false =>
      refine ⟨List.forall_mem_singleton.mpr trivial, fun after returned => ?_⟩
      cases returned
      exact ⟨wiredNext, handed⟩
  | true =>
      have set : ∀ id, fluent id = true := by
        intro id
        rw [handed id, List.takeWhile_eq_self_iff.mpr (List.all_eq_true.mp all)]
        exact .inr (by cases id <;> decide)
      refine ⟨(wiredNext.receive _).mpr fun _ id _ _ _ => .inl (set id), fun after returned => ?_⟩
      obtain ⟨wiredAfter, unchanged⟩ := wiredNext.reached returned
      refine ⟨wiredAfter, fun id => ?_⟩
      rw [unchanged]
      exact handed id

/-- **One public call.** -/
theorem Wired.call (wired : this.Wired netdec) (call : Call) :
    (LoggerSet (this.call call).events ↔ ∀ events, call = .input events →
      ∀ earlier id event, earlier ++ [(id, event)] <+: this.dispatches events →
        (this.receive earlier).result ≠ none → this.fluent id = true ∨ ¬ Loud netdec event id) ∧
      ∀ after, (this.call call).result = some after → after.Wired netdec ∧
        ∀ id, after.fluent id = true ↔ this.fluent id = true ∨ call.Hands id := by
  cases call with
  | setdstFluentd dst =>
      obtain ⟨events, logger, same, set⟩ := setdstFluentd_spec dst this
      unfold Devourer.call
      simp only [same]
      refine ⟨iff_of_true set nofun, fun after returned => ?_⟩
      cases returned
      exact ⟨{ wired with }, fun id => (or_iff_left not_false).symm⟩
  | setdstFilestream fpath =>
      refine ⟨iff_of_true (List.forall_mem_nil _) nofun, fun after returned => ?_⟩
      cases returned
      exact ⟨{ wired with }, fun id => (or_iff_left not_false).symm⟩
  | setdstMsgqueue =>
      refine ⟨iff_of_true (List.forall_mem_nil _) nofun, fun after returned => ?_⟩
      cases returned
      exact ⟨{ wired with }, fun id => (or_iff_left not_false).symm⟩
  | start netcap =>
      obtain ⟨set, follows⟩ := wired.start netcap
      exact ⟨iff_of_true set nofun, follows⟩
  | input events =>
      refine ⟨(wired.receive _).trans ?_, fun after returned => ?_⟩
      · constructor
        · rintro calm _ ⟨⟩
          exact calm
        · intro calm
          exact calm events rfl
      · obtain ⟨wiredAfter, unchanged⟩ := wired.reached returned
        refine ⟨wiredAfter, fun id => ?_⟩
        rw [unchanged]
        exact (or_iff_left not_false).symm

/-- After a sequence of calls the modules have the logger that one of the calls handed
them. -/
theorem Wired.run (wired : this.Wired netdec) (null : ∀ id, this.fluent id = false)
    {calls : List Call} (returned : (this.run calls).result = some after) :
    after.Wired netdec ∧ ∀ id, after.fluent id = true ↔ Handed calls id := by
  refine Exec.run_invariant (fun calls _ after => after.Wired netdec ∧
    ∀ id, after.fluent id = true ↔ Handed calls id) ⟨wired, fun id => ?_⟩
    (fun earlier call middle next before stepped => ?_) calls after returned
  · rw [null id]
    refine iff_of_false Bool.false_ne_true ?_
    rintro ⟨call, member, -⟩
    exact List.not_mem_nil member
  · obtain ⟨wiredNext, handed⟩ := (before.1.call call).2 next stepped
    refine ⟨wiredNext, fun id => ?_⟩
    rw [handed id, before.2 id]
    unfold Handed
    simp only [List.mem_append, List.mem_singleton, or_and_right, exists_or, exists_eq_left]

/-- The destructor. -/
theorem Wired.destroy (wired : this.Wired netdec) :
    LoggerSet this.destroy.events ↔ this.fluent .modDns = true ∨
      ∀ id ∈ this.modDns.queryTable.table.nodes, (this.modDns.queryAt id).hasReply = true := by
  have first : LoggerSet (this.deleteModule .modDns).events ↔
      Logged.Uses true (this.modDns.destroyWith (this.fluent .modDns)) := by
    rw [show this.deleteModule .modDns = _ from Exec.mapEvents_bind_pure ..,
      loggerSet_map_of .modDns .dns fun _ => trivial]
  have second : ∀ next : Devourer, LoggerSet (next.deleteModule .modFlow).events := by
    intro next
    rw [show next.deleteModule .modFlow = _ from Exec.mapEvents_bind_pure ..]
    exact List.forall_mem_map.mpr fun _ _ => trivial
  rw [← ModDns.destroyWith_uses_iff _ wired.dns.queries.table, ← first]
  unfold Devourer.destroy
  rw [wired.modules]
  refine Exec.forall_bind_events.trans (and_iff_left fun next _ => ?_)
  exact Exec.forall_bind_events.mpr ⟨second next, fun _ _ => List.forall_mem_nil _⟩

/-- **When the logger is set.** Over the life of a `Devourer` that was constructed, every
use of the logger by a module finds it set, if and only if no event reaches a module by
`input` that gives it something to report before `start` handed it the logger, and the
destructor of `ModDns` finds no query without reply unless it was handed the logger. -/
theorem loggerSet_iff_patient (netdec : NetDec) (evIpv4 evIpv6 : EvId) (this : Devourer)
    (built : new netdec evIpv4 evIpv6 = some this) (calls : List Call) :
    LoggerSet (this.life calls).events ↔ Patient netdec calls this := by
  obtain ⟨wired, null⟩ := Wired.new built
  have whole : LoggerSet (this.life calls).events ↔ LoggerSet (this.run calls).events ∧
      ∀ last, (this.run calls).result = some last → LoggerSet last.destroy.events :=
    Exec.forall_bind_events
  have each : LoggerSet (this.run calls).events ↔ ∀ before call, before ++ [call] <+: calls →
      ∀ middle, (this.run before).result = some middle → LoggerSet (middle.call call).events :=
    Exec.forall_run_events
  rw [whole, each]
  constructor
  · rintro ⟨inputs, destructor⟩
    refine ⟨fun before events front middle returned earlier id event reached returns => ?_,
      fun last returned => ?_⟩
    · obtain ⟨between, handed⟩ := wired.run null returned
      rw [← handed id]
      exact (between.call _).1.mp (inputs before (.input events) front middle returned) events rfl
        earlier id event reached returns
    · obtain ⟨wiredLast, handed⟩ := wired.run null returned
      rw [← handed]
      exact wiredLast.destroy.mp (destructor last returned)
  · intro patient
    refine ⟨fun before call front middle returned => ?_, fun last returned => ?_⟩
    · obtain ⟨between, handed⟩ := wired.run null returned
      refine (between.call call).1.mpr ?_
      rintro events rfl earlier id event reached returns
      rw [handed id]
      exact patient.inputs before events front middle returned earlier id event reached returns
    · obtain ⟨wiredLast, handed⟩ := wired.run null returned
      apply wiredLast.destroy.mpr
      rw [handed]
      exact patient.destructor last returned

/-- A decoder that registers every handler. -/
def sampleNetDec : NetDec where
  lookupEventId evName :=
    if evName = "dns.packet" then 1
    else if evName = "ipv4.packet" then 4
    else if evName = "ipv6.packet" then 6
    else if evName = "arp.request" then 8
    else if evName = "mdns.packet" then 9
    else 0
  refuses _ _ := false

/-- An event with the values of the sample query, in memory that says that it has no
reply. -/
def sampleEvent (eid : EvId) : Decoded :=
  ⟨eid, ModDns.sampleQuery 1, ⟨"", "", "", ""⟩, ⟨0, 0, false⟩⟩

/-- A capture that is ready and has no packets. -/
def sampleNetCap : NetCap := ⟨true, fun _ => false, "", []⟩

/-- **The logger may be null.** An IP packet given to `input` before `start`, and a DNS query
when `start` is never called. -/
theorem early_input_not_set : ∃ this, Devourer.new sampleNetDec 0 0 = some this ∧
    ¬ LoggerSet (this.life [.input [sampleEvent 4], .start sampleNetCap]).events ∧
    ¬ LoggerSet (this.life [.input [sampleEvent 1]]).events := by
  have computed : (Devourer.new sampleNetDec 0 0).map (fun this =>
      decide (¬ LoggerSet (this.life [.input [sampleEvent 4], .start sampleNetCap]).events ∧
        ¬ LoggerSet (this.life [.input [sampleEvent 1]]).events)) = some true := by
    decide +kernel
  obtain ⟨this, built, unset⟩ := Option.map_eq_some_iff.mp computed
  exact ⟨this, built, of_decide_eq_true unset⟩

/-- Packets given to `input` after `start`. -/
theorem loggerSet_iff_patient_sample : ∃ this, Devourer.new sampleNetDec 0 0 = some this ∧
    LoggerSet (this.life [.start sampleNetCap, .input [sampleEvent 4, sampleEvent 1]]).events := by
  have succeeds : (Devourer.new sampleNetDec 0 0).isSome := by decide
  obtain ⟨this, built⟩ := Option.isSome_iff_exists.mp succeeds
  have handed : ∀ id, (Call.start sampleNetCap).Hands id := fun id =>
    ⟨rfl, by cases id <;> decide⟩
  refine ⟨this, built, (loggerSet_iff_patient sampleNetDec 0 0 this built _).mpr
    ⟨fun before events front _ _ _ id _ _ _ => .inl ?_, fun _ _ => .inl ?_⟩⟩
  · cases before with
    | nil => simp at front
    | cons first rest =>
        obtain ⟨rfl, -⟩ := List.cons_prefix_cons.mp front
        exact ⟨_, List.mem_cons_self, handed id⟩
  · exact ⟨_, List.mem_cons_self, handed .modDns⟩

end Devourer

end Devourer
