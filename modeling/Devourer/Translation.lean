import Devourer.Lockstep
import Devourer.Modules.Flow.Translation
import Devourer.Program

/-! # The program does not know what time it is

A capture that is made some seconds later is reported as it is, that much later (`life_later`).
What is compared are times, never the time, with one exception: a clock that says zero is one
that has not been set.
-/

set_option linter.dupNamespace false

namespace Devourer

/-- The event, decoded from a packet that is captured that much later. -/
inductive Decoded.Later (ahead : ℤ) : Decoded → Decoded → Prop where
  | intro (event : Decoded) {p : Property} : event.p.Later ahead p →
      Later ahead event { event with p }

/-- The report, that much later. -/
inductive LocalEvent.Later (ahead : ℤ) : LocalEvent → LocalEvent → Prop where
  | arpRequest (msg : Message) : Later ahead (.arpRequest msg) (.arpRequest (msg.later ahead))

/-- What happens, that much later. -/
inductive DevourerEvent.Later (ahead : ℤ) : DevourerEvent → DevourerEvent → Prop where
  | deref (id : ModuleId) (isSet : Bool) : Later ahead (.deref id isSet) (.deref id isSet)
  | dns {event event' : DnsEvent} : event.Later ahead event' →
      Later ahead (.dns event) (.dns event')
  | flow {event event' : FlowEvent} : event.Later ahead event' →
      Later ahead (.flow event) (.flow event')
  | loc {event event' : LocalEvent} : event.Later ahead event' →
      Later ahead (.loc event) (.loc event')
  | threw (errmsg : String) : Later ahead (.threw errmsg) (.threw errmsg)

/-- What a module does later is what the program does later. -/
theorem DevourerEvent.Later.of {ε : Type} {later : ε → ε → Prop} {ahead : ℤ} (id : ModuleId)
    {name : ε → DevourerEvent}
    (named : ∀ event event', later event event' → Later ahead (name event) (name event')) :
    ∀ here there, Logged.Later later here there → Later ahead (.of id name here) (.of id name there)
  | _, _, .deref isSet => .deref id isSet
  | _, _, .event here => named _ _ here

/-- **An event that is decoded later** is handled as it is. -/
theorem ModLocal.recvWith_later {ahead : ℤ} {p p' : Property} (captured : p.Later ahead p')
    (fluent : Bool) (eid : EvId) (arp : ArpValues) (this : ModLocal) :
    Exec.Mirrors (Logged.Later (LocalEvent.Later ahead)) Eq (this.recvWith fluent eid p arp)
      (this.recvWith fluent eid p' arp) := by
  have message : LocalEvent.Later ahead (.arpRequest (arpMessage p arp))
      (.arpRequest (arpMessage p' arp)) := by
    cases captured
    exact .arpRequest _
  unfold ModLocal.recvWith
  split
  · apply Exec.Mirrors.bind (Logged.Later.use fluent)
    intro _ _ _
    apply Exec.Mirrors.bind (Logged.Later.log fluent message)
    intro _ _ _
    exact .pure rfl
  · exact .pure rfl

namespace Devourer

variable {ahead : ℤ} {this this' : Devourer}

/-- The program, that much later. -/
abbrev Later (ahead : ℤ) : Devourer → Devourer → Prop :=
  Pairs (ModDns.Later ahead) (ModFlow.Later ahead)

/-- A program that was just constructed has set no clock. -/
theorem Later.new {netdec : NetDec} {evIpv4 evIpv6 : EvId}
    (built : new netdec evIpv4 evIpv6 = some this) : this.Later ahead this := by
  have modules := (Plugged.new built).2
  obtain ⟨handlers, logger, modDns, modFlow, modLocal, fluent, installed⟩ := this
  cases modules
  exact .intro (.new ahead) (.new ahead _ _)

/-- The modules handle each event later as they handle it now. -/
theorem Later.lockstep (ahead : ℤ) :
    Lockstep (DevourerEvent.Later ahead) (Decoded.Later ahead) (ModDns.Later ahead)
      (ModFlow.Later ahead) where
  eid here := by
    cases here
    rfl
  threw errmsg := .threw errmsg
  recvDns {_ _ event _} fluent later here := by
    cases here with
    | intro captured =>
        exact (later.recvWith captured fluent event.memory).imp (.of .modDns fun _ _ => .dns)
  recvFlow {_ _ _ _ event _} fluent later resolves here := by
    cases here with
    | intro captured =>
        exact (later.recvWith captured resolves fluent event.eid).imp
          (.of .modFlow fun _ _ => .flow)
  recvLocal {event _} this fluent here := by
    cases here with
    | intro captured =>
        have handled := this.recvWith_later captured fluent event.eid event.arp
        exact handled.imp (.of .modLocal fun _ _ => .loc)

/-- A module is deleted as it is, and its last reports are later. -/
theorem Later.deleteModule (later : this.Later ahead this') (id : ModuleId) :
    Exec.Mirrors (DevourerEvent.Later ahead) (Later ahead) (this.deleteModule id)
      (this'.deleteModule id) := by
  cases later with
  | @intro _ _ _ _ _ _ _ fluent _ dns flow =>
      cases id with
      | modDns =>
          have deleted := (dns.destroyWith (fluent .modDns)).mapEvents
            (DevourerEvent.Later.of .modDns fun _ _ => .dns)
          exact deleted.bind fun _ _ dns => .pure (.intro dns flow)
      | modFlow =>
          have deleted := flow.destroy.mapEvents fun _ _ => DevourerEvent.Later.flow
          exact deleted.bind fun _ _ flow => .pure (.intro dns flow)
      | modLocal => exact .pure (.intro dns flow)

/-- The modules are deleted in the same order. -/
theorem Later.destroy (later : this.Later ahead this') :
    Exec.Mirrors (DevourerEvent.Later ahead) (Later ahead) this.destroy this'.destroy := by
  unfold Devourer.destroy
  rw [Pairs.modules later]
  apply Exec.Mirrors.run _ (List.forall₂_same.mpr fun _ _ => rfl) later
  rintro this this' id _ later rfl
  exact deleteModule later id

/-- **A capture that is made later** is reported as it is, that much later. The same calls from
construction to destruction, but with packets that are captured some seconds later, or earlier,
use the logger alike, end alike and report the same, but for the times. -/
theorem life_later (ahead : ℤ) (netdec : NetDec) (evIpv4 evIpv6 : EvId) (this : Devourer)
    (built : new netdec evIpv4 evIpv6 = some this) (calls calls' : List Call)
    (captured : List.Forall₂ (Call.Pairs (Decoded.Later ahead)) calls calls') :
    List.Forall₂ (DevourerEvent.Later ahead) (this.life calls).events (this.life calls').events ∧
      (this.life calls).result.isSome = (this.life calls').result.isSome := by
  have lived : Exec.Mirrors (DevourerEvent.Later ahead) (Later ahead) (this.life calls)
      (this.life calls') :=
    ((Later.lockstep ahead).run (Later.new built) captured).bind fun _ _ => Later.destroy
  exact ⟨lived.events, lived.isSome⟩

/-- The sample query, five seconds later. -/
def lateQuery : Property :=
  let query := ModDns.sampleQuery 1
  { query with
    tvSec := query.tvSec + 5
    tvSec_lower := by decide
    tvSec_upper := by decide
    ts := query.ts + (5 : ℤ) }

/-- The late query is captured five seconds later. -/
theorem lateQuery_later : (ModDns.sampleQuery 1).Later 5 lateQuery :=
  .intro _ (by decide) (by decide) (by decide) (by decide) (by decide +kernel) (by decide +kernel)

/-- An event with the values of the sample query, five seconds later. -/
def lateEvent (eid : EvId) : Decoded := { sampleEvent eid with p := lateQuery }

/-- An IP packet and a query, and the same five seconds later. -/
theorem life_later_sample : ∃ this, new sampleNetDec 0 0 = some this ∧
    List.Forall₂ (DevourerEvent.Later 5)
      (this.life [.start sampleNetCap, .input [sampleEvent 4, sampleEvent 1]]).events
      (this.life [.start sampleNetCap, .input [lateEvent 4, lateEvent 1]]).events := by
  have succeeds : (Devourer.new sampleNetDec 0 0).isSome := by decide
  obtain ⟨this, built⟩ := Option.isSome_iff_exists.mp succeeds
  have late : ∀ eid, (sampleEvent eid).Later 5 (lateEvent eid) := fun eid =>
    .intro (sampleEvent eid) lateQuery_later
  have captured : List.Forall₂ (Call.Pairs (Decoded.Later 5))
      [.start sampleNetCap, .input [sampleEvent 4, sampleEvent 1]]
      [.start sampleNetCap, .input [lateEvent 4, lateEvent 1]] :=
    .cons (.start sampleNetCap .nil)
      (.cons (.input (.cons (late 4) (.cons (late 1) .nil))) .nil)
  exact ⟨this, built, (life_later 5 sampleNetDec 0 0 this built _ _ captured).1⟩

end Devourer

end Devourer
