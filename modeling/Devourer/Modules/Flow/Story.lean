import Devourer.Modules.Flow.Step

/-! # What is known of a flow from what was reported about it

The counters and ends of a flow are determined by the packets counted in it: the
first of them built the flow, and each of them updated it, wherever the flow
stands in the table and however often it was put again (`Told`). A flow counts by
direction, left to right or right to left; its messages speak of client and
server instead, which are the two ends as the first packet saw them.
-/

namespace Devourer

namespace FlowDir

/-- The way back. -/
def opposite : FlowDir → FlowDir
  | .nil => .nil
  | .l2r => .r2l
  | .r2l => .l2r

@[simp] theorem opposite_eq_nil {dir : FlowDir} : dir.opposite = .nil ↔ dir = .nil := by
  cases dir <;> decide

/-- The two directions are each other's way back. -/
theorem eq_or_eq_opposite {dir other : FlowDir} (directed : dir ≠ .nil)
    (otherDirected : other ≠ .nil) : other = dir ∨ other = dir.opposite := by
  cases dir <;> cases other <;> simp [opposite] at directed otherDirected ⊢

end FlowDir

namespace Flow

/-! ## The two ends of a flow

An end is named by the direction of the packets it sends. -/

def addr : FlowDir → Flow → String
  | .nil, _ => ""
  | .l2r, flow => flow.lAddr
  | .r2l, flow => flow.rAddr

def resolved : FlowDir → Flow → String
  | .nil, _ => ""
  | .l2r, flow => flow.lName
  | .r2l, flow => flow.rName

def port : FlowDir → Flow → Int32
  | .nil, _ => 0
  | .l2r, flow => flow.lPort
  | .r2l, flow => flow.rPort

def pkt : FlowDir → Flow → Int32
  | .nil, _ => 0
  | .l2r, flow => flow.lPkt
  | .r2l, flow => flow.rPkt

def size : FlowDir → Flow → Int32
  | .nil, _ => 0
  | .l2r, flow => flow.lSize
  | .r2l, flow => flow.rSize

/-- What `flow.log` says of a flow with a direction: the client is the end that the
first packet came from. -/
theorem field_of_buildMessage {flow : Flow} {log : Message} (built : flow.buildMessage = some log) :
    flow.initDir ≠ .nil ∧
    log.field "proto" = some (.text flow.proto) ∧ log.field "hash" = some (.text flow.hvHex) ∧
    log.field "init_ts" = some (.int (unsignedOfTime flow.createdAt)) ∧
    log.field "last_ts" = some (.int (unsignedOfTime flow.updatedAt)) ∧
    log.field "c_addr" = some (.text (flow.addr flow.initDir)) ∧
    log.field "s_addr" = some (.text (flow.addr flow.initDir.opposite)) ∧
    log.field "c_port" = some (.int (flow.port flow.initDir).toInt) ∧
    log.field "s_port" = some (.int (flow.port flow.initDir.opposite).toInt) ∧
    log.field "c_size" = some (.int (flow.size flow.initDir).toInt) ∧
    log.field "s_size" = some (.int (flow.size flow.initDir.opposite).toInt) ∧
    log.field "c_pkt" = some (.int (flow.pkt flow.initDir).toInt) ∧
    log.field "s_pkt" = some (.int (flow.pkt flow.initDir.opposite).toInt) ∧
    log.field "c_name" = (Message.nameValue (flow.resolved flow.initDir)) ∧
    log.field "s_name" = (Message.nameValue (flow.resolved flow.initDir.opposite)) := by
  unfold buildMessage at built
  cases dir : flow.initDir with
  | nil => simp [dir] at built
  | l2r =>
      simp only [dir, Option.some.injEq] at built
      subst built
      simp [setEnds, client, server, addr, port, size, pkt, resolved, FlowDir.opposite]
  | r2l =>
      simp only [dir, Option.some.injEq] at built
      subst built
      simp [setEnds, client, server, addr, port, size, pkt, resolved, FlowDir.opposite]

/-! ## A flow and its packets -/

/-- A packet is counted in its own direction. -/
theorem pkt_update {dir : FlowDir} (directed : dir ≠ .nil) (p : Property) (flow : Flow) :
    (flow.update p).pkt dir = flow.pkt dir + Int32.ofNat (if p.dir = dir then 1 else 0) := by
  unfold update
  cases dir with
  | nil => exact (directed rfl).elim
  | l2r => cases p.dir <;> simp [pkt]
  | r2l => cases p.dir <;> simp [pkt]

theorem size_update {dir : FlowDir} (directed : dir ≠ .nil) (p : Property) (flow : Flow) :
    (flow.update p).size dir =
      flow.size dir + Int32.ofNat (if p.dir = dir then p.len.toNat else 0) := by
  unfold update
  cases dir with
  | nil => exact (directed rfl).elim
  | l2r => cases p.dir <;> simp [size]
  | r2l => cases p.dir <;> simp [size]

/-- The flow after the packets. -/
def updates (packets : List Property) (flow : Flow) : Flow :=
  packets.foldl (fun flow p => flow.update p) flow

theorem updates_snoc (packets : List Property) (p : Property) (flow : Flow) :
    flow.updates (packets ++ [p]) = (flow.updates packets).update p := by
  unfold updates
  rw [List.foldl_append]
  rfl

theorem refresh_self (flow : Flow) : flow.refresh flow.refreshedAt = flow := rfl

theorem refresh_update (tvSec : ℤ) (p : Property) (flow : Flow) :
    (flow.refresh tvSec).update p = (flow.update p).refresh tvSec := by
  unfold update
  cases p.dir <;> rfl

end Flow

namespace ModFlow

/-- The packets counted in the flow, in their order. -/
def packets (id : ℕ) (events : List FlowEvent) : List Property :=
  events.filterMap fun
    | .counted other p => if other = id then some p else none
    | _ => none

/-- The message that reported the flow as new. -/
def IsOpening (id : ℕ) (events : List FlowEvent) (msg : Message) : Prop :=
  ∃ key, .emitNew id key msg ∈ events

/-- The flow is what the first of its packets built and all of them updated; only
the time of its last refresh depends on the other traffic. -/
structure Story (id : ℕ) (events : List FlowEvent) (first : Property) (rest : List Property)
    (src dst : String) (flow : Flow) : Prop where
  counted : packets id events = first :: rest
  opening : ∀ msg, IsOpening id events msg ↔ msg = newMessage first (Flow.new first src dst) src dst
  flow : ((Flow.new first src dst).updates (first :: rest)).refresh flow.refreshedAt = flow

/-- Every flow built so far has its story, and nothing was reported of others. -/
structure Told (events : List FlowEvent) (this : ModFlow) : Prop where
  built : ∀ id < this.flowTable.built,
    ∃ first rest src dst, Story id events first rest src dst (this.flow id)
  unborn : ∀ id, this.flowTable.built ≤ id →
    packets id events = [] ∧ ∀ msg, ¬ IsOpening id events msg

theorem packets_append (id : ℕ) (first second : List FlowEvent) :
    packets id (first ++ second) = packets id first ++ packets id second :=
  List.filterMap_append ..

theorem isOpening_append {id : ℕ} {first second : List FlowEvent} {msg : Message} :
    IsOpening id (first ++ second) msg ↔ IsOpening id first msg ∨ IsOpening id second msg := by
  unfold IsOpening
  simp only [List.mem_append, exists_or]

/-- A tick counts no packet and reports no flow as new. -/
theorem silent_tickEvents (p : Property) (this : ModFlow) (id : ℕ) :
    packets id (this.tickEvents p) = [] ∧ ∀ msg, ¬ IsOpening id (this.tickEvents p) msg := by
  constructor
  · apply List.filterMap_eq_nil_iff.mpr
    intro event member
    obtain ⟨other, -, ⟨-, ttl, taken, rfl⟩ | ⟨-, msg, -, rfl⟩⟩ := tickEvents_cases member <;> rfl
  · rintro msg ⟨key, member⟩
    obtain ⟨other, -, ⟨-, ttl, taken, told⟩ | ⟨-, msg', -, told⟩⟩ := tickEvents_cases member <;>
      cases told

theorem Told.new (evIpv4 evIpv6 : EvId) : Told [] (ModFlow.new evIpv4 evIpv6) where
  built _ := nofun
  unborn _ _ := ⟨rfl, fun _ => by rintro ⟨key, member⟩; cases member⟩

theorem Story.silent {id : ℕ} {events more : List FlowEvent} {first : Property}
    {rest : List Property} {src dst : String} {flow : Flow}
    (story : Story id events first rest src dst flow) (none : packets id more = [])
    (unopened : ∀ msg, ¬ IsOpening id more msg) :
    Story id (events ++ more) first rest src dst flow where
  counted := by rw [packets_append, none, List.append_nil, story.counted]
  opening msg := by
    rw [isOpening_append, story.opening]
    exact or_iff_left (unopened msg)
  flow := story.flow

variable {p : Property} {events : List FlowEvent} {this middle after : ModFlow}

/-- The tick changes nothing but times of refreshes. -/
theorem Told.tick (told : Told events this) (ticked : Ticked p this middle) :
    Told (events ++ this.tickEvents p) middle := by
  refine ⟨fun id known => ?_, fun id late => ?_⟩
  · obtain ⟨none, unopened⟩ := silent_tickEvents p this id
    rw [ticked.built] at known
    obtain ⟨first, rest, src, dst, story⟩ := told.built id known
    refine ⟨first, rest, src, dst, ?_⟩
    have same := story.silent none unopened
    refine ⟨same.counted, same.opening, ?_⟩
    rw [ticked.flow]
    split
    · rw [← same.flow]
      rfl
    · exact same.flow
  · obtain ⟨none, unopened⟩ := silent_tickEvents p this id
    rw [ticked.built] at late
    obtain ⟨nothing, unborn⟩ := told.unborn id late
    rw [packets_append, nothing, none]
    refine ⟨rfl, fun msg opening => ?_⟩
    exact (isOpening_append.mp opening).elim (unborn msg) (unopened msg)

/-- One more packet. -/
theorem Story.count {id : ℕ} {first : Property} {rest : List Property} {src dst : String}
    {flow : Flow} (story : Story id events first rest src dst flow) (p : Property) :
    Story id (events ++ [.counted id p]) first (rest ++ [p]) src dst (flow.update p) where
  counted := by
    rw [packets_append, story.counted]
    simp [packets]
  opening msg := by
    rw [isOpening_append, story.opening]
    apply or_iff_left
    rintro ⟨key, member⟩
    cases List.mem_singleton.mp member
  flow := by
    rw [← List.cons_append, Flow.updates_snoc, Flow.refreshedAt_update, ← Flow.refresh_update,
      story.flow]

/-- A packet counted in one flow is no part of the story of another. -/
theorem silent_counted {id other : ℕ} (different : id ≠ other) (p : Property) :
    packets other [.counted id p] = [] ∧ ∀ msg, ¬ IsOpening other [.counted id p] msg := by
  refine ⟨by simp [packets, different], ?_⟩
  rintro msg ⟨key, member⟩
  cases List.mem_singleton.mp member

theorem Told.count (told : Told events this) (p : Property) {id : ℕ}
    (known : id < this.flowTable.built) : Told (events ++ [.counted id p]) (this.counted p id) := by
  refine ⟨fun other inside => ?_, fun other late => ?_⟩
  · obtain ⟨first, rest, src, dst, story⟩ := told.built other inside
    by_cases self : other = id
    · subst self
      refine ⟨first, rest ++ [p], src, dst, ?_⟩
      rw [counted_flow, if_pos rfl]
      exact story.count p
    · obtain ⟨none, unopened⟩ := silent_counted (Ne.symm self) p
      refine ⟨first, rest, src, dst, ?_⟩
      rw [counted_flow, if_neg self]
      exact story.silent none unopened
  · obtain ⟨nothing, unborn⟩ := told.unborn other late
    obtain ⟨none, unopened⟩ :=
      silent_counted (Nat.ne_of_lt (Nat.lt_of_lt_of_le known late)) p
    rw [packets_append, nothing, none]
    refine ⟨rfl, fun msg opening => ?_⟩
    exact (isOpening_append.mp opening).elim (unborn msg) (unopened msg)

/-- A new flow starts its story with the packet that built it. -/
theorem Told.fresh (told : Told events this) (p : Property) (src dst : String) :
    Told (events ++ [.emitNew this.flowTable.built (keyOf p)
        (newMessage p (Flow.new p src dst) src dst), .put this.flowTable.built 600 true,
        .counted this.flowTable.built p])
      ((this.added (Flow.new p src dst)).counted p this.flowTable.built) := by
  obtain ⟨nothing, unborn⟩ := told.unborn _ (Nat.le_refl this.flowTable.built)
  have others : ∀ other ≠ this.flowTable.built,
      packets other [.emitNew this.flowTable.built (keyOf p)
        (newMessage p (Flow.new p src dst) src dst), .put this.flowTable.built 600 true,
        .counted this.flowTable.built p] = [] ∧
      ∀ msg, ¬ IsOpening other [.emitNew this.flowTable.built (keyOf p)
        (newMessage p (Flow.new p src dst) src dst), .put this.flowTable.built 600 true,
        .counted this.flowTable.built p] msg := by
    intro other different
    exact ⟨by simp [packets, different.symm], fun msg => by simp [IsOpening, different]⟩
  refine ⟨fun other inside => ?_, fun other late => ?_⟩
  · by_cases self : other = this.flowTable.built
    · subst self
      refine ⟨p, [], src, dst, ?_, fun msg => ?_, ?_⟩
      · rw [packets_append, nothing]
        simp [packets]
      · rw [isOpening_append, or_iff_right (unborn msg)]
        simp [IsOpening]
      · rw [counted_flow, if_pos rfl, added_flow_self]
        exact Flow.refresh_self _
    · have earlier : other < this.flowTable.built :=
        Nat.lt_of_le_of_ne (Nat.le_of_lt_succ inside) self
      obtain ⟨first, rest, src', dst', story⟩ := told.built other earlier
      obtain ⟨none, unopened⟩ := others other self
      refine ⟨first, rest, src', dst', ?_⟩
      rw [counted_flow, if_neg self, added_flow_of_lt earlier]
      exact story.silent none unopened
  · have later : this.flowTable.built < other := Nat.lt_of_succ_le late
    obtain ⟨nothing, unborn⟩ := told.unborn other (Nat.le_of_lt later)
    obtain ⟨none, unopened⟩ := others other (Nat.ne_of_gt later)
    rw [packets_append, nothing, none]
    refine ⟨rfl, fun msg opening => ?_⟩
    exact (isOpening_append.mp opening).elim (unborn msg) (unopened msg)

/-- **One call continues the stories.** -/
theorem Told.step {dns : ModDns} {eid : EvId} {handling : List FlowEvent}
    (told : Told events this) (kept : this.Kept) (ticked : Ticked p this middle)
    (handled : Handled dns eid p middle handling after) :
    Told (events ++ (this.tickEvents p ++ handling)) after := by
  have between := told.tick ticked
  rw [← List.append_assoc]
  cases handled with
  | skipped =>
      rw [List.append_nil]
      exact between
  | known id slot ip live same => exact between.count p ((ticked.kept kept).wf.live_lt live)
  | fresh src dst => exact between.fresh p src dst

theorem Told.run {evIpv4 evIpv6 : EvId} {inputs : List Input}
    (reached : ((ModFlow.new evIpv4 evIpv6).run inputs).result = some this) :
    Told ((ModFlow.new evIpv4 evIpv6).run inputs).events this :=
  (run_induction (Kept.new evIpv4 evIpv6) (fun _ events this => Told events this)
    (Told.new evIpv4 evIpv6) (fun _ _ _ _ _ _ _ kept ticked handled told =>
      told.step kept ticked handled) reached).2

/-- A run on fixed inputs whose last call logs the flow. -/
theorem exists_emitLog (start : ModFlow) (calls : List Input) (input : Input) (id : ℕ)
    (computed : (start.run calls).result.map (fun this =>
      (this.recv input.dns input.eid input.p).events.any (isLog id)) = some true) :
    ∃ this key log, (start.run calls).result = some this ∧
      .emitLog id key log ∈ (this.recv input.dns input.eid input.p).events := by
  obtain ⟨this, reached, logged⟩ := Option.map_eq_some_iff.mp computed
  obtain ⟨event, member, isLogged⟩ := List.any_eq_true.mp logged
  cases event with
  | emitLog other key log =>
      obtain rfl : other = id := of_decide_eq_true isLogged
      exact ⟨this, key, log, reached, member⟩
  | emitNew other key msg => cases isLogged
  | put other ttl taken => cases isLogged
  | counted other p => cases isLogged

end ModFlow

end Devourer
