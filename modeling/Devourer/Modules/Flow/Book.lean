import Devourer.Foundation.View
import Devourer.LRUHash.Ledger
import Devourer.Modules.Flow.Clock

/-! # What the flow module is for

A `FlowBook` is a ledger of flows. Flows past their deadlines are taken from it in the order of
the ledger, and are entered again or logged; packets are counted in the newest flow they belong
to. For positive timestamps the module sends the messages of the book, in the same order
(`flows_eq_book`).
-/

namespace Devourer

/-- The message that is sent. -/
def FlowEvent.msg? : FlowEvent → Option Message
  | .emitNew _ _ msg => some msg
  | .emitLog _ _ msg => some msg
  | .put _ _ _ => none
  | .counted _ _ => none

/-- The open flows. -/
structure FlowBook where
  evIpv4 : EvId
  evIpv6 : EvId
  lastTs : ℤ
  flows : Ledger Flow

namespace FlowBook

open ModFlow

def new (evIpv4 evIpv6 : EvId) : FlowBook := ⟨evIpv4, evIpv6, 0, .new 3600⟩

/-- A flow past its deadline is entered again for the time it had packets in, and is logged if
it had none. -/
def expire (p : Property) (this : FlowBook) (flow : Flow) : Exec Message FlowBook :=
  if 0 < flow.remain then
    pure { this with flows := this.flows.put flow.remain.toNat (flow.refresh p.tvSec) }
  else do
    let msg ← Exec.ofOption flow.buildMessage
    Exec.emit msg
    pure this

/-- Time passes up to the second of the packet, unless that is earlier. -/
def tick (p : Property) (this : FlowBook) : Exec Message FlowBook :=
  if this.lastTs = 0 then pure { this with lastTs := p.tvSec }
  else if this.lastTs < p.tvSec then
    let flows := this.flows.prog (p.tvSec - this.lastTs).toNat
    Exec.run (expire p) { this with lastTs := p.tvSec, flows := flows.taken } flows.past
  else pure this

/-- The packet belongs to the flow. -/
def has (p : Property) (flow : Flow) : Bool := flow.flowKey = keyOf p

/-- Count a packet, in a new flow if there is none, with the names of its ends. -/
def packet (resolve : Bytes → Option String) (p : Property) (this : FlowBook) :
    Exec Message FlowBook :=
  match this.flows.find (has p) with
  | some _ => pure { this with flows := this.flows.touch (has p) (Flow.update p) }
  | none => do
      let src ← Exec.ofOption (resolve p.src.bytes)
      let dst ← Exec.ofOption (resolve p.dst.bytes)
      let flow := Flow.new p src dst
      Exec.emit (newMessage p flow src dst)
      pure { this with flows := this.flows.put flowTimeout.toNat (flow.update p) }

/-- A call of `recv`. -/
def recv (resolve : Bytes → Option String) (eid : EvId) (p : Property) (this : FlowBook) :
    Exec Message FlowBook :=
  this.tick p >>= fun this =>
    if eid = this.evIpv4 ∨ eid = this.evIpv6 then this.packet resolve p else pure this

/-- A sequence of calls. -/
def run : FlowBook → List Input → Exec Message FlowBook :=
  Exec.run fun this input =>
    this.recv (fun addr => input.dns.resolvAddr addr ModDns.recurMaxDefault) input.eid input.p

end FlowBook

namespace ModFlow

/-- The book of the module; what has expired is taken before a call ends. -/
def book (this : ModFlow) : FlowBook where
  evIpv4 := this.evIpv4
  evIpv6 := this.evIpv6
  lastTs := this.lastTs
  flows := (this.flowTable.ledger id).taken

variable {this after : ModFlow} {p : Property}

/-! ## The clock -/

/-- What holds of the flow table in the eviction loop. -/
structure Evicting (this : ModFlow) : Prop where
  wf : this.flowTable.WF
  bounded : this.flowTable.table.currTick + this.flowTable.table.timeslotSize ≤ 2 ^ 64
  refreshed : ∀ id, 0 ≤ (this.flow id).refreshedAt
  updated : ∀ id, (this.flow id).updatedAt < 2 ^ 63

/-- A flow with packets is entered again. -/
theorem Evicting.again (evicting : this.Evicting) (positive : 0 < p.tvSec) {flow : ℕ}
    (known : flow < this.flowTable.built) (popped : flow ∉ this.flowTable.table.nodes) (ttl : ℕ) :
    (((this.flowTable.put ttl flow).2.modify flow (Flow.refresh p.tvSec)).ledger id).taken =
        this.book.flows.put ttl ((this.flow flow).refresh p.tvSec) ∧
      Evicting { this with
        flowTable := (this.flowTable.put ttl flow).2.modify flow (Flow.refresh p.tvSec) } := by
  have swap : (this.flowTable.put ttl flow).2.modify flow (Flow.refresh p.tvSec) =
      ((this.flowTable.modify flow (Flow.refresh p.tvSec)).put ttl flow).2 := rfl
  have bounded : (this.flowTable.modify flow (Flow.refresh p.tvSec)).table.currTick +
      (this.flowTable.modify flow (Flow.refresh p.tvSec)).table.timeslotSize ≤ 2 ^ 64 :=
    evicting.bounded
  have entered : ((this.flowTable.modify flow (Flow.refresh p.tvSec)).put ttl flow).2.ledger id =
      _ := Pool.ledger_put bounded ttl flow
  rw [swap]
  refine ⟨?_, (evicting.wf.modify flow _).put popped known ttl, ?_, ?_, ?_⟩
  · rw [entered, Pool.ledger_modify_of_not_mem popped, Pool.modify_object_self]
    exact Ledger.taken_put ..
  · rw [Pool.put_currTick, Pool.put_timeslotSize]
    exact evicting.bounded
  · intro other
    change 0 ≤ ((this.flowTable.modify flow (Flow.refresh p.tvSec)).object other).refreshedAt
    by_cases same : other = flow
    · rw [same, Pool.modify_object_self]
      exact positive.le
    · rw [Pool.modify_object_of_ne same]
      exact evicting.refreshed other
  · intro other
    change ((this.flowTable.modify flow (Flow.refresh p.tvSec)).object other).updatedAt < 2 ^ 63
    rw [Pool.modify_read Flow.updatedAt _ (Flow.updatedAt_refresh p.tvSec)]
    exact evicting.updated other

/-- **One turn of the eviction loop.** -/
theorem Evicting.expire (evicting : this.Evicting) (positive : 0 < p.tvSec) {flow : ℕ}
    (known : flow < this.flowTable.built) (popped : flow ∉ this.flowTable.table.nodes) :
    Exec.view FlowEvent.msg? book (ModFlow.expire p flow this) =
        this.book.expire p (this.flow flow) ∧
      ∀ after, (ModFlow.expire p flow this).result = some after →
        after.Evicting ∧ after.flowTable.table.exp = this.flowTable.table.exp ∧
          ∀ other, other ≠ flow → after.flow other = this.flow other := by
  have refreshed := evicting.refreshed flow
  have updated := evicting.updated flow
  have bounded : (this.flow flow).remain < 2 ^ 63 := by
    unfold Flow.remain
    split <;> omega
  by_cases stuck : Stuck (this.flow flow)
  · have lost : this.book.expire p (this.flow flow) = Exec.abort := by
      unfold FlowBook.expire
      rw [if_neg stuck.1, stuck.2]
      rfl
    rw [expire_of_stuck stuck, lost]
    exact ⟨rfl, nofun⟩
  rw [expire_of_not_stuck stuck]
  by_cases remains : 0 < (this.flow flow).remain
  · have ttl : sizeOfTime (this.flow flow).remain = (this.flow flow).remain.toNat :=
      sizeOfTime_of_nonneg (by omega) (by omega)
    obtain ⟨entered, next⟩ := evicting.again positive known popped (this.flow flow).remain.toNat
    unfold turnEvents turn FlowBook.expire
    rw [if_pos remains, if_pos remains, if_pos remains, ttl]
    refine ⟨?_, ?_⟩
    · exact congrArg (fun flows => (pure { this.book with flows } : Exec Message FlowBook)) entered
    · intro after returned
      cases returned
      exact ⟨next, Pool.put_exp _ _, fun other differs => Pool.modify_object_of_ne differs _⟩
  · obtain ⟨msg, built⟩ : ∃ msg, (this.flow flow).buildMessage = some msg :=
      Option.ne_none_iff_exists'.mp fun none => stuck ⟨remains, none⟩
    unfold turnEvents turn FlowBook.expire
    rw [if_neg remains, if_neg remains, if_neg remains, built]
    refine ⟨rfl, ?_⟩
    intro after returned
    cases returned
    exact ⟨evicting, rfl, fun _ _ => rfl⟩

/-- **The eviction loop.** -/
theorem Evicting.evict {fuel : ℕ} (evicting : this.Evicting) (positive : 0 < p.tvSec)
    (enough : this.flowTable.table.exp.length < fuel) :
    Exec.view FlowEvent.msg? book (ModFlow.evict p fuel this) =
      Exec.run (FlowBook.expire p) this.book (this.flowTable.table.exp.map this.flow) := by
  induction fuel generalizing this with
  | zero => omega
  | succ fuel ih =>
      obtain ⟨⟨⟨size, tick, live, exp⟩, object, built⟩, evIpv4, evIpv6, lastTs, updateMap⟩ := this
      cases exp with
      | nil => rfl
      | cons flow rest =>
          obtain ⟨wf, bounded, refreshed, updated⟩ := evicting
          have known : flow < built := wf.below flow (List.mem_append_right _ List.mem_cons_self)
          have absent := (List.nodup_cons.mp (List.nodup_middle.mp wf.table.nodup)).1
          have held : ∀ id ∈ live.map Prod.fst ++ rest, id < built := fun id member =>
            wf.below id ((List.perm_middle.mem_iff).mpr (List.mem_cons_of_mem flow member))
          have popped : Evicting ⟨⟨⟨size, tick, live, rest⟩, object, built⟩, evIpv4, evIpv6, lastTs,
              updateMap⟩ := ⟨⟨wf.table.pop, held⟩, bounded, refreshed, updated⟩
          obtain ⟨seen, next⟩ := popped.expire positive known absent
          change Exec.view _ _ (ModFlow.expire p flow _ >>= ModFlow.evict p fuel) =
            FlowBook.expire p _ (object flow) >>= fun next =>
              Exec.run (FlowBook.expire p) next (rest.map object)
          refine Eq.trans (Exec.view_bind fun after returned => ?_) (congrArg (· >>= _) seen)
          obtain ⟨evicting, exp, others⟩ := next after returned
          rw [ih evicting (by rw [exp]; exact Nat.lt_of_succ_lt_succ enough), exp]
          congr 1
          apply List.map_congr_left
          exact fun other member => others other fun same =>
            absent (List.mem_append_right _ (same ▸ member))

/-- **The tick.** -/
theorem view_tick (kept : this.Kept) (clocked : this.Clocked) (positive : 0 < p.tvSec) :
    Exec.view FlowEvent.msg? book (this.tick p) = this.book.tick p := by
  have upper := p.tvSec_upper
  have nonneg := clocked.lastTs_nonneg
  have behind := clocked.currTick_le
  have size := kept.size
  have begun : this.book.lastTs = this.lastTs := rfl
  unfold ModFlow.tick FlowBook.tick
  rw [begun]
  split
  · rfl
  · split
    · rename_i forward
      have seconds : sizeOfTime (p.tvSec - this.lastTs) = (p.tvSec - this.lastTs).toNat :=
        sizeOfTime_of_nonneg (by omega) (by omega)
      have progressed : (this.flowTable.prog (p.tvSec - this.lastTs).toNat).ledger id = _ :=
        Pool.ledger_prog kept.wf (by omega)
      have evicting : Evicting { this with
          lastTs := p.tvSec
          flowTable := this.flowTable.prog (p.tvSec - this.lastTs).toNat } := by
        refine ⟨kept.wf.prog _, ?_, clocked.refreshed, clocked.updated⟩
        rw [Pool.prog_currTick, Pool.prog_timeslotSize, sizeT_of_lt (by omega)]
        omega
      have swept : this.book.flows = this.flowTable.ledger id := by
        change Ledger.taken _ = _
        unfold Pool.ledger Ledger.taken
        rw [kept.swept]
        rfl
      dsimp only
      rw [seconds, swept, ← progressed]
      exact evicting.evict positive (Nat.lt_succ_self _)
    · rfl

/-! ## A packet -/

theorem accepts_iff (flow : Flow) :
    Flow.virt.Answers p.hashValue p.ssnLabel flow ↔ FlowBook.has p flow = true := by
  have answers : Flow.virt.Answers (keyOf p).hv (keyOf p).label flow ↔ flow.flowKey = keyOf p :=
    answers_iff
  rw [FlowBook.has, decide_eq_true_eq]
  exact answers

theorem view_packet (kept : this.Kept) (clocked : this.Clocked) (dns : ModDns) (p : Property) :
    Exec.view FlowEvent.msg? book (this.packet dns p) =
      this.book.packet (fun addr => dns.resolvAddr addr ModDns.recurMaxDefault) p := by
  have behind := clocked.currTick_le
  have upper := clocked.lastTs_lt
  have size := kept.size
  have found : this.book.flows.find (FlowBook.has p) =
      (this.flowTable.get Flow.virt p.hashValue p.ssnLabel).map this.flow :=
    Pool.find_ledger fun _ _ _ => accepts_iff _
  unfold ModFlow.packet FlowBook.packet
  rw [found]
  cases held : this.flowTable.get Flow.virt p.hashValue p.ssnLabel with
  | some flow =>
      have touched : (this.flowTable.modify flow (Flow.update p)).ledger id = _ :=
        Pool.ledger_modify kept.wf (fun _ _ _ => accepts_iff _) held rfl
      dsimp only
      rw [count_eq]
      exact congrArg (fun flows : Ledger Flow =>
        (pure { this.book with flows := flows.taken } : Exec Message FlowBook)) touched
  | none =>
      obtain ⟨src, srcIs⟩ := dns.resolvAddr_isSome p.src ModDns.recurMaxDefault
      obtain ⟨dst, dstIs⟩ := dns.resolvAddr_isSome p.dst ModDns.recurMaxDefault
      have entered : ((this.flowTable.build ((Flow.new p src dst).update p)).put
          (sizeOfTime flowTimeout) this.flowTable.built).2.ledger id = _ :=
        Pool.ledger_add kept.wf (by omega) _ _
      have table : ((this.added (Flow.new p src dst)).counted p this.flowTable.built).flowTable =
          ((this.flowTable.build ((Flow.new p src dst).update p)).put (sizeOfTime flowTimeout)
            this.flowTable.built).2 :=
        congrArg (fun pool => (Pool.put (sizeOfTime flowTimeout) this.flowTable.built pool).2)
          (Pool.modify_build ..)
      have flows : ((this.added (Flow.new p src dst)).counted p this.flowTable.built).book =
          { this.book with
            flows := this.book.flows.put flowTimeout.toNat ((Flow.new p src dst).update p) } := by
        unfold ModFlow.book
        rw [table, entered, Ledger.taken_put]
        rfl
      dsimp only
      rw [srcIs, dstIs, newFlow_eq kept.size srcIs dstIs]
      rw [Exec.bind_of_result rfl, count_eq, Exec.ofOption_some_bind, Exec.ofOption_some_bind,
        ← flows]
      rfl

/-- **One call.** -/
theorem view_recv (kept : this.Kept) (clocked : this.Clocked) (positive : 0 < p.tvSec)
    (dns : ModDns) (eid : EvId) :
    Exec.view FlowEvent.msg? book (this.recv dns eid p) =
      this.book.recv (fun addr => dns.resolvAddr addr ModDns.recurMaxDefault) eid p := by
  unfold ModFlow.recv FlowBook.recv
  rw [← view_tick kept clocked positive]
  apply Exec.view_bind
  intro next returned
  rcases (tick_spec p kept).2 with ⟨-, aborted⟩ | ⟨-, -, _, same, ticked⟩
  · rw [aborted] at returned
    cases returned
  · cases returned.symm.trans same
    have four : next.book.evIpv4 = next.evIpv4 := rfl
    have six : next.book.evIpv6 = next.evIpv6 := rfl
    rw [four, six]
    split
    · exact view_packet (ticked.kept kept) (ticked.clocked clocked positive) dns p
    · rfl

/-! ## Runs -/

theorem Clocked.recv (clocked : this.Clocked) (kept : this.Kept) (positive : 0 < p.tvSec)
    {dns : ModDns} {eid : EvId} (returned : (this.recv dns eid p).result = some after) :
    after.Clocked := by
  obtain ⟨-, middle, events, ticked, handled, -⟩ := handled_of_recv kept returned
  have later := ticked.lastTs_eq clocked positive
  exact handled.clocked (ticked.clocked clocked positive) (by omega) positive

/-- **The module keeps the book.** When it is given packets with positive timestamps, in any
order, it sends the messages of the book in the order of the book, and returns or aborts like
it. -/
theorem flows_eq_book (evIpv4 evIpv6 : EvId) (inputs : List Input)
    (positive : ∀ input ∈ inputs, 0 < input.p.tvSec) :
    Exec.view FlowEvent.msg? book ((ModFlow.new evIpv4 evIpv6).run inputs) =
      (FlowBook.new evIpv4 evIpv6).run inputs := by
  have seen : Exec.view FlowEvent.msg? book ((ModFlow.new evIpv4 evIpv6).run inputs) =
      (FlowBook.new evIpv4 evIpv6).run (inputs.map fun input => input) := by
    apply Exec.view_run_map (fun rest this => (this.Kept ∧ this.Clocked) ∧
      ∀ input ∈ rest, 0 < input.p.tvSec) _ _ ⟨⟨Kept.new _ _, Clocked.new _ _⟩, positive⟩
    · intro this input rest after held returned
      obtain ⟨⟨kept, clocked⟩, positive⟩ := held
      exact ⟨⟨kept.recv returned, clocked.recv kept (positive input List.mem_cons_self) returned⟩,
        fun other member => positive other (List.mem_cons_of_mem input member)⟩
    · intro this input rest held
      obtain ⟨⟨kept, clocked⟩, positive⟩ := held
      exact view_recv kept clocked (positive input List.mem_cons_self) input.dns input.eid
  rwa [List.map_id'] at seen

/-- Two flows past their deadlines, one of which had a second packet. -/
theorem flows_eq_book_sample :
    Exec.view FlowEvent.msg? book ((ModFlow.new 4 6).run
        [.sample 5 1, .sample 3 2, .sample 100 2, .sample 700 3]) =
      (FlowBook.new 4 6).run [.sample 5 1, .sample 3 2, .sample 100 2, .sample 700 3] :=
  flows_eq_book 4 6 _ (by decide)

end ModFlow

end Devourer
