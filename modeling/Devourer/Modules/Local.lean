import Devourer.Fluent
import Devourer.Foundation.Run
import Devourer.Swarm

/-! # The module for local traffic

`ModLocal` reports ARP requests. It also registers for mDNS packets, which it ignores.
-/

namespace Devourer

/-- `repr()` of the values of an ARP packet. -/
structure ArpValues where
  srcHw : String
  dstHw : String
  srcPr : String
  dstPr : String
  deriving DecidableEq

/-- What `ModLocal` emits. -/
inductive LocalEvent where
  | arpRequest (msg : Message)
  deriving DecidableEq

/-- `ModLocal`. -/
structure ModLocal where
  recvEventsId : List EvId

namespace ModLocal

def recvEvents : List String := ["arp.request", "mdns.packet"]

/-- `ARP_REQUEST`, the place of the event in the lists. -/
def arpRequest : ℕ := 0

/-- The constructor. -/
def new : ModLocal := ⟨recvEvents.map fun _ => 0⟩

def bindEventId (evName : String) (eid : EvId) (this : ModLocal) : ModLocal :=
  match recvEvents.findIdx? (· = evName) with
  | none => this
  | some i => ⟨this.recvEventsId.set i eid⟩

/-- The message for an ARP request. -/
def arpMessage (p : Property) (arp : ArpValues) : Message :=
  (Message.retain "arp.request").setTs p.tvSec
    |>.set "src_hw" (.text arp.srcHw)
    |>.set "dst_hw" (.text arp.dstHw)
    |>.set "src_pr" (.text arp.srcPr)
    |>.set "dst_pr" (.text arp.dstPr)

/-- `ModLocal::recv`. -/
def recv (eid : EvId) (p : Property) (arp : ArpValues) (this : ModLocal) :
    Exec LocalEvent ModLocal :=
  if this.recvEventsId[arpRequest]? = some eid then do
    Exec.emit (.arpRequest (arpMessage p arp))
    pure this
  else pure this

end ModLocal

end Devourer
