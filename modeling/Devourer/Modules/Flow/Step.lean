import Devourer.Modules.Dns.Step
import Devourer.Modules.Flow.Eviction

/-! # What one call of the flow module does

Between two calls the flow table holds no expired node and at most one live flow
for each key (`Kept`). A call splits into the clock tick with its evictions
(`Ticked`) and the handling of the packet (`Handled`); these two describe every
outcome of a call, and later results about the module start from them.
-/

namespace Devourer

namespace ModFlow

/-- What holds of the flow table between two calls. -/
structure Kept (this : ModFlow) : Prop where
  wf : this.flowTable.WF
  size : this.flowTable.table.timeslotSize = 3600
  swept : this.flowTable.table.exp = []
  keyed : ∀ id other slot slot', this.flowTable.Live id slot → this.flowTable.Live other slot' →
    (this.flow id).flowKey = (this.flow other).flowKey → id = other

theorem Kept.new (evIpv4 evIpv6 : EvId) : (ModFlow.new evIpv4 evIpv6).Kept where
  wf := Pool.WF.new 3600
  size := rfl
  swept := rfl
  keyed := nofun

theorem Kept.fits {this : ModFlow} (kept : this.Kept) :
    sizeOfTime flowTimeout < this.flowTable.table.timeslotSize := by
  rw [kept.size]
  decide

/-- The flows the eviction loop will pop. -/
def expired (p : Property) (this : ModFlow) : List ℕ :=
  if this.lastTs ≠ 0 ∧ this.lastTs < p.tvSec then
    (this.flowTable.prog (sizeOfTime (p.tvSec - this.lastTs))).table.exp
  else []

/-- The effect of the clock tick and its evictions. -/
structure Ticked (p : Property) (before after : ModFlow) : Prop where
  wf : after.flowTable.WF
  size : after.flowTable.table.timeslotSize = 3600
  swept : after.flowTable.table.exp = []
  built : after.flowTable.built = before.flowTable.built
  lastTs : after.lastTs =
    if before.lastTs = 0 ∨ before.lastTs < p.tvSec then p.tvSec else before.lastTs
  currTick : after.flowTable.table.currTick =
    if before.lastTs ≠ 0 ∧ before.lastTs < p.tvSec then
      sizeT (before.flowTable.table.currTick + sizeOfTime (p.tvSec - before.lastTs))
    else before.flowTable.table.currTick
  flow : ∀ id, after.flow id =
    if id ∈ before.expired p ∧ 0 < (before.flow id).remain then
      (before.flow id).refresh p.tvSec
    else before.flow id
  live : ∀ id slot, after.flowTable.Live id slot ↔
    before.flowTable.Live id slot ∧ id ∉ before.expired p ∨
      id ∈ before.expired p ∧ 0 < (before.flow id).remain ∧
        sizeOfTime (before.flow id).remain < 3600 ∧
        slot = after.flowTable.table.slotFor (sizeOfTime (before.flow id).remain)
  evIpv4 : after.evIpv4 = before.evIpv4
  evIpv6 : after.evIpv6 = before.evIpv6
  updateMap : after.updateMap = before.updateMap

theorem expired_live {p : Property} {this : ModFlow} (kept : this.Kept) {id : ℕ}
    (due : id ∈ this.expired p) : ∃ slot, this.flowTable.Live id slot := by
  unfold expired at due
  split at due
  · rw [Pool.mem_exp_prog_iff, kept.swept] at due
    rcases due with absurd | ⟨slot, live, -⟩
    · cases absurd
    · exact ⟨slot, live⟩
  · cases due

/-- What a tick reports about each expired flow. -/
def tickEvents (p : Property) (this : ModFlow) : List FlowEvent :=
  (this.expired p).flatMap fun id => turnEvents 3600 id (this.flow id)

theorem tickEvents_cases {p : Property} {this : ModFlow} {event : FlowEvent}
    (member : event ∈ this.tickEvents p) : ∃ id ∈ this.expired p,
      (0 < (this.flow id).remain ∧ ∃ ttl taken, event = .put id ttl taken) ∨
        ¬ 0 < (this.flow id).remain ∧ ∃ msg, (this.flow id).buildMessage = some msg ∧
          event = .emitLog id (this.flow id).flowKey msg := by
  obtain ⟨id, due, told⟩ := List.mem_flatMap.mp member
  rcases turnEvents_cases told with ⟨remains, taken, rfl⟩ | logged
  · exact ⟨id, due, .inl ⟨remains, _, taken, rfl⟩⟩
  · exact ⟨id, due, .inr logged⟩

theorem emitNew_not_mem_tickEvents {p : Property} {this : ModFlow} {id : ℕ} {key : FlowKey}
    {msg : Message} : .emitNew id key msg ∉ this.tickEvents p := by
  intro member
  obtain ⟨other, -, ⟨-, ttl, taken, told⟩ | ⟨-, msg', -, told⟩⟩ := tickEvents_cases member
  · cases told
  · cases told

theorem expired_nodup {p : Property} {this : ModFlow} (kept : this.Kept) :
    (this.expired p).Nodup := by
  unfold expired
  split
  · exact (kept.wf.prog _).table.exp_nodup
  · exact List.nodup_nil

/-- What a tick reports of one flow comes from the turn of this flow only. -/
theorem filterMap_tickEvents {δ : Type} {p : Property} {this : ModFlow} (kept : this.Kept)
    {id : ℕ} {select : FlowEvent → Option δ}
    (own : ∀ other ∈ this.expired p, other ≠ id →
      (turnEvents 3600 other (this.flow other)).filterMap select = []) :
    (this.tickEvents p).filterMap select =
      if id ∈ this.expired p then (turnEvents 3600 id (this.flow id)).filterMap select else [] :=
  filterMap_flatMap_of_nodup (expired_nodup kept) _ own

theorem countP_tickEvents {p : Property} {this : ModFlow} (kept : this.Kept) {id : ℕ}
    {pred : FlowEvent → Bool}
    (own : ∀ other flow, other ≠ id → (turnEvents 3600 other flow).countP pred = 0) :
    (this.tickEvents p).countP pred =
      if id ∈ this.expired p then (turnEvents 3600 id (this.flow id)).countP pred else 0 :=
  countP_flatMap_of_nodup (expired_nodup kept) _ fun other _ => own other _

/-- A tick logs the expired flows without time remaining. -/
theorem logs_tickEvents {p : Property} {this : ModFlow} (kept : this.Kept) (id : ℕ) :
    logs id (this.tickEvents p) =
      if id ∈ this.expired p ∧ ¬ 0 < (this.flow id).remain ∧
        (this.flow id).buildMessage.isSome = true then 1 else 0 := by
  have own : ∀ other flow, other ≠ id → logs id (turnEvents 3600 other flow) = 0 := by
    intro other flow different
    rw [logs_turnEvents, if_neg fun both => different both.1]
  unfold logs
  rw [countP_tickEvents kept own]
  change (if id ∈ this.expired p then logs id _ else 0) = _
  rw [logs_turnEvents, ← ite_and]
  simp only [true_and]

/-- A call that gets past its evictions logs the expired flows without time
remaining. -/
theorem logs_tickEvents_of_free {p : Property} {this : ModFlow} (kept : this.Kept)
    (free : ∀ id ∈ this.expired p, ¬ Stuck (this.flow id)) (id : ℕ) :
    logs id (this.tickEvents p) =
      if id ∈ this.expired p ∧ ¬ 0 < (this.flow id).remain then 1 else 0 := by
  rw [logs_tickEvents kept]
  apply if_congr _ rfl rfl
  constructor
  · rintro ⟨due, overdue, -⟩
    exact ⟨due, overdue⟩
  · rintro ⟨due, overdue⟩
    refine ⟨due, overdue, Option.isSome_iff_ne_none.mpr fun none => ?_⟩
    exact free id due ⟨overdue, none⟩

/-- A tick that does not progress the table. -/
theorem tick_idle {p : Property} {this : ModFlow} (kept : this.Kept)
    (idle : ¬ (this.lastTs ≠ 0 ∧ this.lastTs < p.tvSec)) :
    ∃ after, this.tick p = pure after ∧ Ticked p this after := by
  have none : this.expired p = [] := by
    unfold expired
    rw [if_neg idle]
  unfold tick
  by_cases first : this.lastTs = 0
  · rw [if_pos first]
    refine ⟨_, rfl, kept.wf, kept.size, kept.swept, rfl, ?_, ?_, fun id => ?_, fun id slot => ?_,
      rfl, rfl, rfl⟩
    · simp only [first, true_or, ↓reduceIte]
    · rw [if_neg idle]
    · simp only [none, List.not_mem_nil, false_and, ↓reduceIte]
    · simp only [none, List.not_mem_nil, not_false_eq_true, and_true, false_and, or_false]
  · have late : ¬ this.lastTs < p.tvSec := fun later => idle ⟨first, later⟩
    rw [if_neg first, if_neg late]
    refine ⟨_, rfl, kept.wf, kept.size, kept.swept, rfl, ?_, ?_, fun id => ?_, fun id slot => ?_,
      rfl, rfl, rfl⟩
    · simp only [first, late, or_self, ↓reduceIte]
    · rw [if_neg idle]
    · simp only [none, List.not_mem_nil, false_and, ↓reduceIte]
    · simp only [none, List.not_mem_nil, not_false_eq_true, and_true, false_and, or_false]

/-- **The clock tick.** A tick either deals with all expired flows or aborts at
one without a direction, and reports only what the turns of expired flows do. -/
theorem tick_spec (p : Property) {this : ModFlow} (kept : this.Kept) :
    (∀ event ∈ (this.tick p).events, event ∈ this.tickEvents p) ∧
    ((∃ id ∈ this.expired p, Stuck (this.flow id)) ∧ (this.tick p).result = none ∨
      (∀ id ∈ this.expired p, ¬ Stuck (this.flow id)) ∧
      (this.tick p).events = this.tickEvents p ∧
      ∃ after, (this.tick p).result = some after ∧ Ticked p this after) := by
  by_cases progress : this.lastTs ≠ 0 ∧ this.lastTs < p.tvSec
  swap
  · obtain ⟨after, returned, ticked⟩ := tick_idle kept progress
    have none : this.expired p = [] := by
      unfold expired
      rw [if_neg progress]
    rw [returned, tickEvents, none]
    exact ⟨fun _ => nofun, .inr ⟨fun _ => nofun, rfl, after, rfl, ticked⟩⟩
  let moved : ModFlow := { this with
    lastTs := p.tvSec
    flowTable := this.flowTable.prog (sizeOfTime (p.tvSec - this.lastTs)) }
  have looped : this.tick p = evict p (moved.flowTable.table.exp.length + 1) moved := by
    unfold tick
    rw [if_neg progress.1, if_pos progress.2]
  have due : this.expired p = moved.flowTable.table.exp := by
    unfold expired
    rw [if_pos progress]
  have size : moved.flowTable.table.timeslotSize = 3600 :=
    (Pool.prog_timeslotSize _).trans kept.size
  obtain ⟨told, ends⟩ := evict_spec p (kept.wf.prog _)
    (Nat.lt_succ_self moved.flowTable.table.exp.length)
  rw [size] at told ends
  rw [looped, tickEvents, due]
  refine ⟨fun event member => List.mem_flatMap.mpr (told event member), ?_⟩
  rcases ends with aborted | ⟨free, events, after, returned, turned, wf, emptied⟩
  · exact .inl aborted
  refine .inr ⟨free, events, after, returned, wf, turned.size.trans size, emptied, turned.built, ?_,
    ?_, fun id => ?_, fun id slot => ?_, turned.evIpv4, turned.evIpv6, turned.updateMap⟩
  · rw [if_pos (.inr progress.2)]
    exact turned.lastTs
  · rw [if_pos progress]
    exact turned.currTick
  · rw [due]
    exact turned.flow id
  · rw [turned.live, due, size]
    have slotFor : after.flowTable.table.slotFor = moved.flowTable.table.slotFor := by
      funext ttl
      rw [Table.slotFor, turned.currTick, turned.size]
      rfl
    rw [slotFor]
    apply or_congr_left
    -- a live flow stands in one timeslot, so it is popped when this is visited
    rw [Pool.mem_exp_prog_iff, kept.swept, Pool.live_prog_iff]
    apply and_congr_right
    intro live
    rw [not_iff_not]
    constructor
    · intro visited
      exact .inr ⟨slot, live, visited⟩
    · rintro (absurd | ⟨slot', live', visited⟩)
      · cases absurd
      · rwa [kept.wf.table.slot_unique live live']

/-- The state after counting a packet in a flow. -/
def counted (p : Property) (id : ℕ) (this : ModFlow) : ModFlow :=
  { this with
    flowTable := this.flowTable.modify id (Flow.update p)
    updateMap := addBytes this.updateMap (this.flow id).hvHex p.len }

/-- The state after putting a new flow in the table. -/
def added (flow : Flow) (this : ModFlow) : ModFlow :=
  { this with
    flowTable := ((this.flowTable.build flow).put (sizeOfTime flowTimeout) this.flowTable.built).2 }

theorem count_eq (p : Property) (id : ℕ) (this : ModFlow) :
    this.count p id = ⟨[.counted id p], some (this.counted p id)⟩ := by
  simp only [count, counted, Pool.modify_object_self, Flow.hvHex_update]
  rfl

theorem newFlow_eq {dns : ModDns} {p : Property} {this : ModFlow} {src dst : String}
    (size : this.flowTable.table.timeslotSize = 3600)
    (srcIs : dns.resolvAddr p.src.bytes ModDns.recurMaxDefault = some src)
    (dstIs : dns.resolvAddr p.dst.bytes ModDns.recurMaxDefault = some dst) :
    this.newFlow dns p =
      ⟨[.emitNew this.flowTable.built (keyOf p) (newMessage p (Flow.new p src dst) src dst),
        .put this.flowTable.built 600 true],
        some (this.flowTable.built, this.added (Flow.new p src dst))⟩ := by
  have taken : ((this.flowTable.build (Flow.new p src dst)).put (sizeOfTime flowTimeout)
      this.flowTable.built).1 = true := by
    rw [Pool.put_accepted, Pool.build_table, size]
    decide
  unfold newFlow
  rw [srcIs, dstIs]
  simp only [Exec.ofOption_some_bind, Exec.emit_bind, taken]
  rfl

/-- The ways in which a call handles its packet once the clock has ticked. -/
inductive Handled (dns : ModDns) (eid : EvId) (p : Property) (this : ModFlow) :
    List FlowEvent → ModFlow → Prop where
  | skipped : ¬ (eid = this.evIpv4 ∨ eid = this.evIpv6) → Handled dns eid p this [] this
  | known (id slot : ℕ) : eid = this.evIpv4 ∨ eid = this.evIpv6 →
      this.flowTable.Live id slot → (this.flow id).flowKey = keyOf p →
      Handled dns eid p this [.counted id p] (this.counted p id)
  | fresh (src dst : String) : eid = this.evIpv4 ∨ eid = this.evIpv6 →
      dns.resolvAddr p.src.bytes ModDns.recurMaxDefault = some src →
      dns.resolvAddr p.dst.bytes ModDns.recurMaxDefault = some dst →
      (∀ id slot, this.flowTable.Live id slot → (this.flow id).flowKey ≠ keyOf p) →
      Handled dns eid p this
        [.emitNew this.flowTable.built (keyOf p) (newMessage p (Flow.new p src dst) src dst),
          .put this.flowTable.built 600 true, .counted this.flowTable.built p]
        ((this.added (Flow.new p src dst)).counted p this.flowTable.built)

theorem Handled.logs_eq_zero {dns : ModDns} {eid : EvId} {p : Property} {this after : ModFlow}
    {events : List FlowEvent} (handled : Handled dns eid p this events after) (id : ℕ) :
    logs id events = 0 := by
  cases handled <;> rfl

theorem answers_iff {flow : Flow} {key : FlowKey} :
    Flow.virt.Answers key.hv key.label flow ↔ flow.flowKey = key := by
  constructor
  · rintro ⟨sameHash, sameLabel⟩
    unfold Flow.flowKey
    rw [show flow.key = key.label from of_decide_eq_true sameLabel,
      show flow.hv = key.hv from sameHash]
  · rintro rfl
    exact ⟨rfl, decide_eq_true rfl⟩

/-- A lookup answers a live flow with the key. -/
theorem get_eq_some {this : ModFlow} {key : FlowKey} {id : ℕ}
    (found : this.flowTable.get Flow.virt key.hv key.label = some id) :
    (∃ slot, this.flowTable.Live id slot) ∧ (this.flow id).flowKey = key := by
  obtain ⟨live, answers⟩ := Pool.get_eq_some found
  exact ⟨live, answers_iff.mp answers⟩

/-- A lookup answers nothing only when no live flow has the key. -/
theorem get_eq_none {this : ModFlow} {key : FlowKey}
    (absent : this.flowTable.get Flow.virt key.hv key.label = none) {id slot : ℕ}
    (live : this.flowTable.Live id slot) : (this.flow id).flowKey ≠ key := fun same =>
  Pool.get_eq_none absent live (answers_iff.mpr same)

/-- The flow found for a key is the one live flow that has it. -/
theorem Kept.get_iff {this : ModFlow} (kept : this.Kept) {key : FlowKey} {id : ℕ} :
    this.flowTable.get Flow.virt key.hv key.label = some id ↔
      (∃ slot, this.flowTable.Live id slot) ∧ (this.flow id).flowKey = key := by
  constructor
  · exact get_eq_some
  · rintro ⟨⟨slot, live⟩, same⟩
    cases found : this.flowTable.get Flow.virt key.hv key.label with
    | none => exact (get_eq_none found live same).elim
    | some other =>
        obtain ⟨⟨slot', live'⟩, same'⟩ := get_eq_some found
        rw [kept.keyed id other slot slot' live live' (same.trans same'.symm)]

/-- **Handling a packet.** -/
theorem handled_packet (dns : ModDns) (eid : EvId) (p : Property) {this : ModFlow}
    (size : this.flowTable.table.timeslotSize = 3600) :
    ∃ events after, (if eid = this.evIpv4 ∨ eid = this.evIpv6 then this.packet dns p
      else pure this : Exec FlowEvent ModFlow) = ⟨events, some after⟩ ∧
        Handled dns eid p this events after := by
  by_cases ip : eid = this.evIpv4 ∨ eid = this.evIpv6
  swap
  · rw [if_neg ip]
    exact ⟨[], this, rfl, .skipped ip⟩
  rw [if_pos ip]
  unfold packet
  cases found : this.flowTable.get Flow.virt p.hashValue p.ssnLabel with
  | some id =>
      have found : this.flowTable.get Flow.virt (keyOf p).hv (keyOf p).label = some id := found
      obtain ⟨⟨slot, live⟩, same⟩ := get_eq_some found
      exact ⟨_, _, count_eq p id this, .known id slot ip live same⟩
  | none =>
      obtain ⟨src, srcIs⟩ := dns.resolvAddr_isSome p.src ModDns.recurMaxDefault
      obtain ⟨dst, dstIs⟩ := dns.resolvAddr_isSome p.dst ModDns.recurMaxDefault
      have found : this.flowTable.get Flow.virt (keyOf p).hv (keyOf p).label = none := found
      have unknown : ∀ id slot, this.flowTable.Live id slot → (this.flow id).flowKey ≠ keyOf p :=
        fun id slot live => get_eq_none found live
      refine ⟨_, _, ?_, .fresh src dst ip srcIs dstIs unknown⟩
      change this.newFlow dns p >>= _ = _
      rw [newFlow_eq size srcIs dstIs, Exec.bind_of_result rfl]
      dsimp only
      rw [count_eq]
      rfl

/-- **One call.** A call either aborts at an expired flow without a direction, or
ticks the clock and handles its packet. -/
theorem recv_spec (dns : ModDns) (eid : EvId) (p : Property) {this : ModFlow} (kept : this.Kept) :
    (∃ id ∈ this.expired p, Stuck (this.flow id)) ∧ (this.recv dns eid p).result = none ∧
        (∀ event ∈ (this.recv dns eid p).events, event ∈ this.tickEvents p) ∨
      (∀ id ∈ this.expired p, ¬ Stuck (this.flow id)) ∧
      ∃ middle events after, Ticked p this middle ∧ Handled dns eid p middle events after ∧
        this.recv dns eid p = ⟨this.tickEvents p ++ events, some after⟩ := by
  unfold recv
  obtain ⟨told, ⟨stuck, aborted⟩ | ⟨free, events, middle, returned, ticked⟩⟩ := tick_spec p kept
  · rw [Exec.bind_of_abort aborted]
    exact .inl ⟨stuck, rfl, told⟩
  · obtain ⟨handled, after, same, how⟩ := handled_packet dns eid p ticked.size
    refine .inr ⟨free, middle, handled, after, ticked, how, ?_⟩
    rw [Exec.bind_of_result returned, same, events]

/-- What a call that returns has done. -/
theorem handled_of_recv {dns : ModDns} {eid : EvId} {p : Property} {this after : ModFlow}
    (kept : this.Kept) (returned : (this.recv dns eid p).result = some after) :
    (∀ id ∈ this.expired p, ¬ Stuck (this.flow id)) ∧ ∃ middle events, Ticked p this middle ∧
      Handled dns eid p middle events after ∧
        this.recv dns eid p = ⟨this.tickEvents p ++ events, some after⟩ := by
  rcases recv_spec dns eid p kept with
    ⟨-, aborted, -⟩ | ⟨free, middle, events, next, ticked, handled, same⟩
  · cases aborted.symm.trans returned
  · cases (congrArg Exec.result same).symm.trans returned
    exact ⟨free, middle, events, ticked, handled, same⟩

/-- A logged flow had expired without time remaining. -/
theorem due_of_emitLog {dns : ModDns} {eid : EvId} {p : Property} {this : ModFlow}
    (kept : this.Kept) {id : ℕ} {key : FlowKey} {msg : Message}
    (logged : .emitLog id key msg ∈ (this.recv dns eid p).events) :
    id ∈ this.expired p ∧ ¬ 0 < (this.flow id).remain ∧ (this.flow id).buildMessage = some msg := by
  have ticking : .emitLog id key msg ∈ this.tickEvents p := by
    rcases recv_spec dns eid p kept with
      ⟨-, -, told⟩ | ⟨-, middle, handling, after, -, handled, same⟩
    · exact told _ logged
    · rw [same] at logged
      rcases List.mem_append.mp logged with here | there
      · exact here
      · cases handled <;> simp at there
  obtain ⟨other, due, ⟨-, ttl, taken, told⟩ | ⟨overdue, msg', built, told⟩⟩ :=
    tickEvents_cases ticking
  · cases told
  · cases told
    exact ⟨due, overdue, built⟩

/-! ## The invariant between calls -/

/-- A tick neither changes the key of a flow nor makes one live. -/
theorem Ticked.of_live {p : Property} {before after : ModFlow} (ticked : Ticked p before after)
    (kept : before.Kept) {id slot : ℕ} (live : after.flowTable.Live id slot) :
    ∃ slot', before.flowTable.Live id slot' := by
  rcases (ticked.live id slot).mp live with ⟨live, -⟩ | ⟨due, -⟩
  · exact ⟨slot, live⟩
  · exact expired_live kept due

/-- What no refresh changes of a flow, a tick does not change. -/
theorem Ticked.fixed {β : Type} {read : Flow → β} {p : Property} {before after : ModFlow}
    (ticked : Ticked p before after)
    (refresh : ∀ (tvSec : ℤ) (flow : Flow), read (flow.refresh tvSec) = read flow) (id : ℕ) :
    read (after.flow id) = read (before.flow id) := by
  rw [ticked.flow]
  split
  · exact refresh p.tvSec (before.flow id)
  · rfl

theorem Ticked.flowKey {p : Property} {before after : ModFlow} (ticked : Ticked p before after)
    (id : ℕ) : (after.flow id).flowKey = (before.flow id).flowKey :=
  ticked.fixed (fun _ _ => rfl) id

theorem Ticked.initDir {p : Property} {before after : ModFlow} (ticked : Ticked p before after)
    (id : ℕ) : (after.flow id).initDir = (before.flow id).initDir :=
  ticked.fixed Flow.initDir_refresh id

theorem Ticked.updatedAt {p : Property} {before after : ModFlow} (ticked : Ticked p before after)
    (id : ℕ) : (after.flow id).updatedAt = (before.flow id).updatedAt :=
  ticked.fixed Flow.updatedAt_refresh id

theorem Ticked.kept {p : Property} {before after : ModFlow} (ticked : Ticked p before after)
    (kept : before.Kept) : after.Kept := by
  refine ⟨ticked.wf, ticked.size, ticked.swept, fun id other slot slot' live live' same => ?_⟩
  obtain ⟨_, before⟩ := ticked.of_live kept live
  obtain ⟨_, before'⟩ := ticked.of_live kept live'
  rw [ticked.flowKey, ticked.flowKey] at same
  exact kept.keyed id other _ _ before before' same

theorem counted_flow (p : Property) (id other : ℕ) (this : ModFlow) :
    (this.counted p id).flow other =
      if other = id then (this.flow id).update p else this.flow other := by
  by_cases self : other = id
  · subst self
    rw [if_pos rfl]
    exact Pool.modify_object_self ..
  · rw [if_neg self]
    exact Pool.modify_object_of_ne self _

theorem counted_flowKey (p : Property) (id other : ℕ) (this : ModFlow) :
    ((this.counted p id).flow other).flowKey = (this.flow other).flowKey := by
  rw [counted_flow]
  split
  · rename_i self
    rw [Flow.flowKey_update, self]
  · rfl

theorem counted_live (p : Property) (id other slot : ℕ) (this : ModFlow) :
    (this.counted p id).flowTable.Live other slot ↔ this.flowTable.Live other slot := Iff.rfl

theorem Kept.counted {this : ModFlow} (kept : this.Kept) (p : Property) (id : ℕ) :
    (this.counted p id).Kept := by
  refine ⟨kept.wf.modify _ _, kept.size, kept.swept, fun one other slot slot' live live' same => ?_⟩
  rw [counted_flowKey, counted_flowKey] at same
  exact kept.keyed one other slot slot' live live' same

theorem added_flow_self (flow : Flow) (this : ModFlow) :
    (this.added flow).flow this.flowTable.built = flow := Pool.build_object_self flow

theorem added_flow_of_lt {this : ModFlow} {id : ℕ} (earlier : id < this.flowTable.built)
    (flow : Flow) : (this.added flow).flow id = this.flow id :=
  Pool.build_object_of_lt earlier flow

/-- The new flow is live, and so are the flows that were. -/
theorem added_live {this : ModFlow} (size : this.flowTable.table.timeslotSize = 3600) (flow : Flow)
    (id slot : ℕ) : (this.added flow).flowTable.Live id slot ↔ this.flowTable.Live id slot ∨
      id = this.flowTable.built ∧ slot = this.flowTable.table.slotFor 600 := by
  have short : sizeOfTime flowTimeout < this.flowTable.table.timeslotSize := by
    rw [size]
    decide
  exact Pool.live_build_put_iff short id slot

theorem Kept.added {this : ModFlow} (kept : this.Kept) {flow : Flow}
    (unknown : ∀ id slot, this.flowTable.Live id slot → (this.flow id).flowKey ≠ flow.flowKey) :
    (this.added flow).Kept := by
  have old : ∀ {id slot}, this.flowTable.Live id slot → (this.added flow).flow id = this.flow id :=
    fun live => added_flow_of_lt (kept.wf.live_lt live) flow
  refine ⟨(kept.wf.build flow).put kept.wf.built_not_mem (Nat.lt_succ_self _) _,
    (Pool.put_timeslotSize _ _).trans kept.size, (Pool.put_exp _ _).trans kept.swept,
    fun id other slot slot' live live' same => ?_⟩
  rcases (added_live kept.size flow id slot).mp live with live | ⟨rfl, -⟩ <;>
    rcases (added_live kept.size flow other slot').mp live' with live' | ⟨rfl, -⟩
  · rw [old live, old live'] at same
    exact kept.keyed id other slot slot' live live' same
  · rw [old live, added_flow_self] at same
    exact (unknown id slot live same).elim
  · rw [old live', added_flow_self] at same
    exact (unknown other slot' live' same.symm).elim
  · rfl

theorem Handled.kept {dns : ModDns} {eid : EvId} {p : Property} {this after : ModFlow}
    {events : List FlowEvent} (handled : Handled dns eid p this events after) (kept : this.Kept) :
    after.Kept := by
  cases handled with
  | skipped => exact kept
  | known id slot ip live same => exact kept.counted p id
  | fresh src dst ip srcIs dstIs unknown =>
      apply Kept.counted
      exact kept.added unknown

/-- The invariant holds after every call that returns. -/
theorem Kept.recv {dns : ModDns} {eid : EvId} {p : Property} {this after : ModFlow}
    (kept : this.Kept) (returned : (this.recv dns eid p).result = some after) : after.Kept := by
  obtain ⟨-, middle, events, ticked, handled, -⟩ := handled_of_recv kept returned
  exact handled.kept (ticked.kept kept)

theorem run_append_result {start after : ModFlow} {first second : List Input} :
    (start.run (first ++ second)).result = some after ↔
      ∃ middle, (start.run first).result = some middle ∧
        (middle.run second).result = some after := by
  unfold ModFlow.run
  rw [Exec.run_append, Exec.bind_result_eq_some]

/-- **Induction over calls.** What holds at the start of a run and is kept by
every tick with the handling after it holds at its end. -/
theorem run_induction {start : ModFlow} (kept : start.Kept)
    (motive : List Input → List FlowEvent → ModFlow → Prop) (initial : motive [] [] start)
    (step : ∀ inputs input events this middle handling after, this.Kept →
      Ticked input.p this middle →
      Handled input.dns input.eid input.p middle handling after → motive inputs events this →
      motive (inputs ++ [input]) (events ++ (this.tickEvents input.p ++ handling)) after)
    {inputs : List Input} {this : ModFlow} (reached : (start.run inputs).result = some this) :
    this.Kept ∧ motive inputs (start.run inputs).events this := by
  refine Exec.run_invariant (fun inputs events this => this.Kept ∧ motive inputs events this)
    ⟨kept, initial⟩ (fun inputs input this next ⟨kept, holds⟩ returned => ?_) inputs this reached
  refine ⟨kept.recv returned, ?_⟩
  obtain ⟨-, middle, handling, ticked, handled, same⟩ := handled_of_recv kept returned
  rw [same]
  exact step inputs input _ this middle handling _ kept ticked handled holds

theorem Kept.run {evIpv4 evIpv6 : EvId} {inputs : List Input} {this : ModFlow}
    (reached : ((ModFlow.new evIpv4 evIpv6).run inputs).result = some this) : this.Kept :=
  (run_induction (Kept.new evIpv4 evIpv6) (fun _ _ _ => True) trivial
    (fun _ _ _ _ _ _ _ _ _ _ _ => trivial) reached).1

/-- The event ids stay as they were bound. -/
theorem bound_run {start this : ModFlow} (kept : start.Kept) {inputs : List Input}
    (reached : (start.run inputs).result = some this) :
    this.evIpv4 = start.evIpv4 ∧ this.evIpv6 = start.evIpv6 := by
  refine (run_induction kept (fun _ _ this => this.evIpv4 = start.evIpv4 ∧
    this.evIpv6 = start.evIpv6) ⟨rfl, rfl⟩
    (fun _ _ _ _ _ _ _ _ ticked handled bound => ?_) reached).2
  rw [← ticked.evIpv4, ← ticked.evIpv6] at bound
  cases handled <;> exact bound

end ModFlow

end Devourer
