import Devourer.Modules.Dns.Book
import Devourer.Modules.Flow.Book
import Devourer.Modules.Flow.Closing
import Devourer.Separation

/-! # What the program is for

The books of the DNS module and of the flow module make up what the program has to remember:
questions, names, aliases and flows. Flows are named by the first book, and ARP requests are
reported as they come. Over its whole life the program sends the messages of the books
(`life_eq_books`).
-/

set_option linter.dupNamespace false

namespace Devourer

/-- The message that is sent. -/
def LocalEvent.msg? : LocalEvent → Option Message
  | .arpRequest msg => some msg

/-- The message that is sent. -/
def Report.msg? : Report → Option Message
  | .dns event => event.msg?
  | .flow event => event.msg?
  | .loc event => event.msg?

/-- The message that is sent. -/
def DevourerEvent.msg? (event : DevourerEvent) : Option Message := event.report?.bind Report.msg?

/-- The two books. -/
structure Books where
  dns : DnsBook
  flow : FlowBook

namespace Books

def new (netdec : NetDec) : Books where
  dns := .new
  flow := .new (netdec.lookupEventId "ipv4.packet") (netdec.lookupEventId "ipv6.packet")

/-- A decoded event. -/
def recv (netdec : NetDec) (event : Decoded) (this : Books) : Exec Message Books :=
  match netdec.route event.eid with
  | some .modDns => do
      let dns ← this.dns.recv event.memory event.p
      pure { this with dns := dns }
  | some .modFlow => do
      let flow ← this.flow.recv (fun addr => this.dns.resolve addr ModDns.recurMaxDefault) event.eid
        event.p
      pure { this with flow := flow }
  | some .modLocal =>
      if event.eid = netdec.lookupEventId "arp.request" then do
        Exec.emit (ModLocal.arpMessage event.p event.arp)
        pure this
      else pure this
  | none => pure this

def run (netdec : NetDec) (this : Books) (events : List Decoded) : Exec Message Books :=
  Exec.run (fun this event => this.recv netdec event) this events

/-- Events from the first to the last, and the end, at which questions are given up. -/
def life (netdec : NetDec) (events : List Decoded) (this : Books) : Exec Message Unit :=
  this.run netdec events >>= fun this => this.dns.close >>= fun _ => pure ()

end Books

namespace Monitor

/-- The books of the modules. -/
def books (this : Monitor) : Books := ⟨this.dns.book, this.flow.book⟩

variable {netdec : NetDec} {this after : Monitor} {event : Decoded} {rest : List Decoded}

/-- What holds of the modules while the events are to come. -/
structure Booked (netdec : NetDec) (events : List Decoded) (this : Monitor) : Prop where
  dns : this.dns.Paced (ModDns.progress this.dns.lastTs (netdec.dnsInputs events))
  flow : this.flow.Kept
  clocked : this.flow.Clocked
  knows : this.Knows netdec
  positive : ∀ event ∈ events, netdec.route event.eid = some .modFlow → 0 < event.p.tvSec

theorem Booked.tail (booked : this.Booked netdec (event :: rest))
    (notDns : netdec.route event.eid ≠ some .modDns) : this.Booked netdec rest := by
  obtain ⟨dns, flow, clocked, knows, positive⟩ := booked
  have inputs : netdec.dnsInputs (event :: rest) = netdec.dnsInputs rest := by
    unfold NetDec.dnsInputs
    simp only [List.filter_cons, notDns, decide_false, Bool.false_eq_true, ↓reduceIte]
  rw [inputs] at dns
  exact ⟨dns, flow, clocked, knows, fun other member =>
    positive other (List.mem_cons_of_mem event member)⟩

/-- A DNS packet. -/
theorem Booked.recv_dns (booked : this.Booked netdec (event :: rest))
    (routed : netdec.route event.eid = some .modDns) :
    Exec.view Report.msg? books (this.recv netdec event) = this.books.recv netdec event ∧
      ∀ after, (this.recv netdec event).result = some after → after.Booked netdec rest := by
  have inputs : netdec.dnsInputs (event :: rest) =
      ⟨event.memory, event.p⟩ :: netdec.dnsInputs rest := by
    unfold NetDec.dnsInputs
    simp only [List.filter_cons, routed, decide_true, ↓reduceIte, List.map_cons]
  have paced := booked.dns
  rw [inputs] at paced
  obtain ⟨seen, next⟩ := ModDns.Paced.recv paced event.memory
  constructor
  · have carried : Exec.view Report.msg? books (this.hand .modDns event) =
        Exec.view DnsEvent.msg? ModDns.book (this.dns.recv event.memory event.p) >>= fun dns =>
          pure { this.books with dns := dns } := by
      apply Exec.view_mapEvents_bind_pure
      · exact fun _ => rfl
      · exact fun _ => rfl
    rw [seen] at carried
    unfold Monitor.recv Books.recv
    rw [routed]
    exact carried
  · intro after returned
    rw [Monitor.recv_dns routed] at returned
    obtain ⟨dns, stepped, rfl⟩ := Option.map_eq_some_iff.mp returned
    obtain ⟨paced, clock⟩ := next dns stepped
    rw [← clock] at paced
    exact ⟨paced, booked.flow, booked.clocked, booked.knows, fun other member =>
      booked.positive other (List.mem_cons_of_mem event member)⟩

/-- An IP packet. -/
theorem Booked.recv_flow (booked : this.Booked netdec (event :: rest))
    (routed : netdec.route event.eid = some .modFlow) :
    Exec.view Report.msg? books (this.recv netdec event) = this.books.recv netdec event ∧
      ∀ after, (this.recv netdec event).result = some after → after.Booked netdec rest := by
  have positive := booked.positive event List.mem_cons_self routed
  have names : (fun addr => this.dns.resolvAddr addr ModDns.recurMaxDefault) =
      fun addr => this.books.dns.resolve addr ModDns.recurMaxDefault :=
    funext fun addr => booked.dns.toKept.resolve addr _
  have seen := ModFlow.view_recv booked.flow booked.clocked positive this.dns event.eid
  rw [names] at seen
  constructor
  · have carried : Exec.view Report.msg? books (this.hand .modFlow event) =
        Exec.view FlowEvent.msg? ModFlow.book (this.flow.recv this.dns event.eid event.p) >>=
          fun flow => pure { this.books with flow := flow } := by
      apply Exec.view_mapEvents_bind_pure
      · exact fun _ => rfl
      · exact fun _ => rfl
    rw [seen] at carried
    unfold Monitor.recv Books.recv
    rw [routed]
    exact carried
  · intro after returned
    rw [Monitor.recv_flow routed] at returned
    obtain ⟨flow, stepped, rfl⟩ := Option.map_eq_some_iff.mp returned
    obtain ⟨dns, -, -, knows, positives⟩ := booked.tail fun dns => by
      cases routed.symm.trans dns
    exact ⟨dns, booked.flow.recv stepped, booked.clocked.recv booked.flow positive stepped, knows,
      positives⟩

/-- **One event.** -/
theorem Booked.recv (booked : this.Booked netdec (event :: rest)) (distinct : netdec.Distinct) :
    Exec.view Report.msg? books (this.recv netdec event) = this.books.recv netdec event ∧
      ∀ after, (this.recv netdec event).result = some after → after.Booked netdec rest := by
  by_cases toDns : netdec.route event.eid = some .modDns
  · exact booked.recv_dns toDns
  by_cases toFlow : netdec.route event.eid = some .modFlow
  · exact booked.recv_flow toFlow
  have stays := recv_other booked.knows distinct toDns toFlow
  rw [stays]
  constructor
  · unfold Books.recv NetDec.arpMessages
    cases routed : netdec.route event.eid with
    | none =>
        have other : event.eid ≠ netdec.lookupEventId "arp.request" := fun arp => by
          cases routed.symm.trans (arp_routed distinct arp)
        simp only [List.filter_cons, other, decide_false, Bool.false_eq_true, ↓reduceIte]
        rfl
    | some id =>
        cases id with
        | modDns => exact absurd routed toDns
        | modFlow => exact absurd routed toFlow
        | modLocal =>
            by_cases arp : event.eid = netdec.lookupEventId "arp.request"
            · simp only [List.filter_cons, arp, decide_true, ↓reduceIte]
              rfl
            · simp only [List.filter_cons, arp, decide_false, Bool.false_eq_true, ↓reduceIte]
              rfl
  · intro after returned
    cases returned
    exact booked.tail toDns

/-- At the end the DNS book is closed. -/
theorem view_delete (dns : this.dns.Kept) (flow : this.flow.Kept) :
    Exec.view Report.msg? (fun _ => ())
        (Exec.run (fun this id => this.deleteModule id) this ModuleId.installed) =
      this.books.dns.close >>= fun _ => pure () := by
  obtain ⟨drained, silent, -⟩ := ModFlow.destroy_eq flow
  have others : ∀ dns, Exec.run (fun (this : Monitor) id => this.deleteModule id)
      { this with dns := dns } [.modFlow, .modLocal] =
        pure { this with dns := dns, flow := drained } := by
    intro dns
    have flows : ({ this with dns := dns } : Monitor).deleteModule .modFlow =
        pure { this with dns := dns, flow := drained } := by
      unfold deleteModule
      rw [silent]
      rfl
    change deleteModule .modFlow _ >>= _ = _
    rw [flows]
    rfl
  have all : Exec.run (fun (this : Monitor) id => this.deleteModule id) this ModuleId.installed =
      this.dns.destroy.mapEvents .dns >>= fun dns =>
        pure { this with dns := dns, flow := drained } := by
    refine (Exec.bind_assoc ..).trans ?_
    congr 1
    funext dns
    exact others dns
  have closed : Exec.view DnsEvent.msg? ModDns.book this.dns.destroy = this.books.dns.close :=
    dns.close
  rw [all, ← closed]
  apply Exec.view_mapEvents_bind_pure
  · exact fun _ => rfl
  · exact fun _ => rfl

/-- **A run and its end.** -/
theorem Booked.life {events : List Decoded} (booked : this.Booked netdec events)
    (distinct : netdec.Distinct) :
    Exec.view Report.msg? (fun _ => ()) (this.life netdec events) =
      this.books.life netdec events := by
  have keeps : ∀ (this : Monitor) event rest after, this.Booked netdec (event :: rest) →
      (this.recv netdec event).result = some after → after.Booked netdec rest :=
    fun this event rest after booked => (booked.recv distinct).2 after
  have seen : Exec.view Report.msg? books (this.run netdec events) =
      this.books.run netdec (events.map fun event => event) :=
    Exec.view_run_map (fun rest this => this.Booked netdec rest) keeps
      (fun this event rest booked => (booked.recv distinct).1) booked
  rw [List.map_id'] at seen
  unfold Monitor.life Books.life
  rw [← seen]
  apply Exec.view_bind
  intro last returned
  have ended : last.Booked netdec [] :=
    Exec.run_keeps (fun rest this => this.Booked netdec rest) keeps booked returned
  exact view_delete ended.dns.toKept ended.flow

theorem Booked.new {events : List Decoded}
    (bounded : ModDns.progress 0 (netdec.dnsInputs events) + 1200 ≤ 2 ^ 64)
    (positive : ∀ event ∈ events, netdec.route event.eid = some .modFlow → 0 < event.p.tvSec) :
    (Monitor.new netdec).Booked netdec events :=
  ⟨.new bounded, .new _ _, .new _ _, rfl, positive⟩

end Monitor

namespace Devourer

/-- **The program keeps the books.** Over the life of a `Devourer` that was constructed by a
decoder with different ids for different events, as long as every use of the logger finds it set,
IP packets have positive timestamps and the tick counters of the DNS module do not wrap around,
the messages that are sent are those of the books of all decoded events, in the same order, and
the life returns or aborts like theirs. -/
theorem life_eq_books (netdec : NetDec) (distinct : netdec.Distinct) (evIpv4 evIpv6 : EvId)
    (this : Devourer) (built : new netdec evIpv4 evIpv6 = some this) (calls : List Call)
    (set : LoggerSet (this.life calls).events)
    (bounded : ModDns.progress 0 (netdec.dnsInputs (calls.flatMap Call.decoded)) + 1200 ≤ 2 ^ 64)
    (positive : ∀ event ∈ calls.flatMap Call.decoded,
      netdec.route event.eid = some .modFlow → 0 < event.p.tvSec) :
    Exec.view DevourerEvent.msg? (fun _ => ()) (this.life calls) =
      (Books.new netdec).life netdec (calls.flatMap Call.decoded) := by
  have seen : Exec.view DevourerEvent.report? monitor (this.life calls) =
      (Monitor.new netdec).life netdec (calls.flatMap Call.decoded) :=
    Plugged.life distinct built set
  have booked : Exec.view Report.msg? (fun _ => ()) ((Monitor.new netdec).life netdec
      (calls.flatMap Call.decoded)) = (Books.new netdec).life netdec _ :=
    (Monitor.Booked.new bounded positive).life distinct
  rw [← booked, ← seen, Exec.view_view]
  rfl

theorem life_eq_books_sample : ∃ this, new sampleNetDec 0 0 = some this ∧
    Exec.view DevourerEvent.msg? (fun _ => ()) (this.life mixedCalls) =
      (Books.new sampleNetDec).life sampleNetDec (captured.flatten ++ handedOver) := by
  obtain ⟨this, built, -, set⟩ := mixedCalls_set
  exact ⟨this, built, life_eq_books sampleNetDec (by decide) 0 0 this built mixedCalls set
    (by decide) (by decide)⟩

end Devourer

end Devourer
