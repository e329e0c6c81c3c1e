import Devourer.Foundation.Simulation
import Devourer.Handover

/-! # Two programs in lockstep

Two programs are given calls that differ in what is decoded only. When their modules handle one
packet alike, they handle all public calls alike (`Lockstep.run`), as what else happens in a call
depends neither on the packets nor on the DNS and flow modules.
-/

set_option linter.dupNamespace false

namespace Devourer

namespace Devourer

/-- The same calls, but for the packets. -/
inductive Call.Pairs (given : Decoded → Decoded → Prop) : Call → Call → Prop where
  | setdstFluentd (dst : String) : Pairs given (.setdstFluentd dst) (.setdstFluentd dst)
  | setdstFilestream (fpath : String) :
      Pairs given (.setdstFilestream fpath) (.setdstFilestream fpath)
  | setdstMsgqueue : Pairs given .setdstMsgqueue .setdstMsgqueue
  | start (netcap : NetCap) {packets : List (List Decoded)} :
      List.Forall₂ (List.Forall₂ given) netcap.packets packets →
      Pairs given (.start netcap) (.start { netcap with packets })
  | input {events events' : List Decoded} : List.Forall₂ given events events' →
      Pairs given (.input events) (.input events')

/-- The same programs, but for the DNS and flow modules. -/
inductive Pairs (dns : ModDns → ModDns → Prop) (flow : ModFlow → ModFlow → Prop) :
    Devourer → Devourer → Prop where
  | intro {handlers : List (EvId × ModuleId)} {logger : Logger} {modDns modDns' : ModDns}
      {modFlow modFlow' : ModFlow} {modLocal : ModLocal} {fluent : ModuleId → Bool}
      {modules : List ModuleId} : dns modDns modDns' → flow modFlow modFlow' →
      Pairs dns flow ⟨handlers, logger, modDns, modFlow, modLocal, fluent, modules⟩
        ⟨handlers, logger, modDns', modFlow', modLocal, fluent, modules⟩

/-- One packet is handled alike. -/
structure Lockstep (alike : DevourerEvent → DevourerEvent → Prop)
    (given : Decoded → Decoded → Prop) (dns : ModDns → ModDns → Prop)
    (flow : ModFlow → ModFlow → Prop) : Prop where
  eid {event event' : Decoded} : given event event' → event'.eid = event.eid
  threw (errmsg : String) : alike (.threw errmsg) (.threw errmsg)
  recvDns {this this' : ModDns} {event event' : Decoded} (fluent : Bool) : dns this this' →
    given event event' → Exec.Mirrors
      (fun here there => alike (.of .modDns .dns here) (.of .modDns .dns there)) dns
      (this.recvWith fluent event.memory event.p) (this'.recvWith fluent event'.memory event'.p)
  recvFlow {this this' : ModFlow} {modDns modDns' : ModDns} {event event' : Decoded}
    (fluent : Bool) : flow this this' → dns modDns modDns' → given event event' → Exec.Mirrors
      (fun here there => alike (.of .modFlow .flow here) (.of .modFlow .flow there)) flow
      (this.recvWith fluent modDns event.eid event.p)
      (this'.recvWith fluent modDns' event'.eid event'.p)
  recvLocal {event event' : Decoded} (this : ModLocal) (fluent : Bool) : given event event' →
    Exec.Mirrors (fun here there => alike (.of .modLocal .loc here) (.of .modLocal .loc there)) Eq
      (this.recvWith fluent event.eid event.p event.arp)
      (this.recvWith fluent event'.eid event'.p event'.arp)

namespace Lockstep

variable {alike : DevourerEvent → DevourerEvent → Prop} {given : Decoded → Decoded → Prop}
  {dns : ModDns → ModDns → Prop} {flow : ModFlow → ModFlow → Prop} {this this' : Devourer}

/-- One event, handed to one module. -/
theorem recv (lockstep : Lockstep alike given dns flow) (pairs : Pairs dns flow this this')
    (id : ModuleId) {event event' : Decoded} (here : given event event') :
    Exec.Mirrors alike (Pairs dns flow) (this.recv id event) (this'.recv id event') := by
  cases pairs with
  | @intro _ _ _ _ _ _ modLocal fluent _ dns flow =>
      cases id with
      | modDns =>
          have handled := (lockstep.recvDns (fluent .modDns) dns here).mapEvents fun _ _ => id
          exact handled.bind fun _ _ dns => .pure (.intro dns flow)
      | modFlow =>
          have handled :=
            (lockstep.recvFlow (fluent .modFlow) flow dns here).mapEvents fun _ _ => id
          exact handled.bind fun _ _ flow => .pure (.intro dns flow)
      | modLocal =>
          have handled :=
            (lockstep.recvLocal modLocal (fluent .modLocal) here).mapEvents fun _ _ => id
          exact handled.bind fun _ _ same => same ▸ .pure (.intro dns flow)

/-- The events are handed to the same modules, as their ids are the same. -/
theorem dispatches (lockstep : Lockstep alike given dns flow) (pairs : Pairs dns flow this this')
    {events events' : List Decoded} (paired : List.Forall₂ given events events') :
    List.Forall₂ (fun here there : ModuleId × Decoded => here.1 = there.1 ∧ given here.2 there.2)
      (this.dispatches events) (this'.dispatches events') := by
  have handlers : this'.handlers = this.handlers := by
    cases pairs
    rfl
  unfold Devourer.dispatches
  rw [handlers]
  induction paired with
  | nil => exact .nil
  | cons here _ ih =>
      rw [List.flatMap_cons, List.flatMap_cons, lockstep.eid here]
      apply List.rel_append _ ih
      rw [List.forall₂_map_left_iff, List.forall₂_map_right_iff, List.forall₂_same]
      exact fun _ _ => ⟨rfl, here⟩

/-- A row of events. -/
theorem receive (lockstep : Lockstep alike given dns flow) (pairs : Pairs dns flow this this')
    {events events' : List Decoded} (paired : List.Forall₂ given events events') :
    Exec.Mirrors alike (Pairs dns flow) (this.receive (this.dispatches events))
      (this'.receive (this'.dispatches events')) := by
  apply Exec.Mirrors.run _ (lockstep.dispatches pairs paired) pairs
  rintro this this' ⟨id, event⟩ ⟨_, event'⟩ pairs ⟨rfl, here⟩
  exact lockstep.recv pairs id here

end Lockstep

namespace Pairs

variable {dns : ModDns → ModDns → Prop} {flow : ModFlow → ModFlow → Prop} {this this' : Devourer}

/-- The same modules are installed. -/
theorem modules (pairs : Pairs dns flow this this') : this'.modules = this.modules := by
  cases pairs
  rfl

/-- A destination is for the logger, which is the same. -/
theorem addDestination (pairs : Pairs dns flow this this') (destination : Destination) :
    Pairs dns flow (this.addDestination destination) (this'.addDestination destination) := by
  cases pairs with
  | intro dns flow => exact .intro dns flow

/-- The capture refuses the same module, if any, and the modules before it get the logger. -/
theorem setupModules (pairs : Pairs dns flow this this') (netcap : NetCap)
    (packets : List (List Decoded)) (modules : List ModuleId) :
    (Devourer.setupModules netcap modules this).1 =
        (Devourer.setupModules { netcap with packets } modules this').1 ∧
      Pairs dns flow (Devourer.setupModules netcap modules this).2
        (Devourer.setupModules { netcap with packets } modules this').2 := by
  induction modules generalizing this this' with
  | nil => exact ⟨rfl, pairs⟩
  | cons id rest ih =>
      unfold Devourer.setupModules
      split
      · exact ⟨rfl, pairs⟩
      · apply ih
        cases pairs with
        | intro dns flow => exact .intro dns flow

end Pairs

namespace Lockstep

variable {alike : DevourerEvent → DevourerEvent → Prop} {given : Decoded → Decoded → Prop}
  {dns : ModDns → ModDns → Prop} {flow : ModFlow → ModFlow → Prop} {this this' : Devourer}

/-- The destination is accepted by both programs, or by neither. -/
theorem setdstFluentd (lockstep : Lockstep alike given dns flow)
    (pairs : Pairs dns flow this this') (dst : String) :
    Exec.Mirrors alike (Pairs dns flow) (this.setdstFluentd dst) (this'.setdstFluentd dst) := by
  unfold Devourer.setdstFluentd
  dsimp only
  split
  · exact .pure (pairs.addDestination _)
  · split
    · exact Exec.Mirrors.bind (.emit (lockstep.threw _)) fun _ _ _ => .pure pairs
    · exact .pure (pairs.addDestination _)

/-- Both captures fail with the same message, or both are decoded. -/
theorem start (lockstep : Lockstep alike given dns flow) (pairs : Pairs dns flow this this')
    (netcap : NetCap) {packets : List (List Decoded)}
    (paired : List.Forall₂ (List.Forall₂ given) netcap.packets packets) :
    Exec.Mirrors alike (Pairs dns flow) (this.start netcap)
      (this'.start { netcap with packets }) := by
  unfold Devourer.start
  rw [pairs.modules]
  split
  · exact Exec.Mirrors.bind (.emit (lockstep.threw _)) fun _ _ _ => .pure pairs
  · obtain ⟨same, set⟩ := pairs.setupModules netcap packets this.modules
    revert same set
    generalize Devourer.setupModules netcap this.modules this = left
    generalize Devourer.setupModules _ this.modules this' = right
    obtain ⟨completed, next⟩ := left
    obtain ⟨completed', next'⟩ := right
    rintro rfl set
    cases completed with
    | false => exact Exec.Mirrors.bind (.emit (lockstep.threw _)) fun _ _ _ => .pure set
    | true => exact lockstep.receive set (List.rel_flatten paired)

/-- One public call. -/
theorem call (lockstep : Lockstep alike given dns flow) (pairs : Pairs dns flow this this')
    {call call' : Call} (here : Call.Pairs given call call') :
    Exec.Mirrors alike (Pairs dns flow) (this.call call) (this'.call call') := by
  cases here with
  | setdstFluentd dst => exact lockstep.setdstFluentd pairs dst
  | setdstFilestream fpath => exact .pure (pairs.addDestination _)
  | setdstMsgqueue => exact .pure (pairs.addDestination _)
  | start netcap paired => exact lockstep.start pairs netcap paired
  | input paired => exact lockstep.receive pairs paired

/-- **Programs whose modules handle a packet alike** handle all public calls alike. -/
theorem run (lockstep : Lockstep alike given dns flow) (pairs : Pairs dns flow this this')
    {calls calls' : List Call} (paired : List.Forall₂ (Call.Pairs given) calls calls') :
    Exec.Mirrors alike (Pairs dns flow) (this.run calls) (this'.run calls') := by
  apply Exec.Mirrors.run _ paired pairs
  exact fun _ _ _ _ pairs here => lockstep.call pairs here

end Lockstep

end Devourer

end Devourer
