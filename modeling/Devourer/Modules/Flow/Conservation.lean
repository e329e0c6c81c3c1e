import Devourer.Modules.Flow.Clock

/-! # No flow is lost or logged twice

A flow that was reported as new should be in the table until it is logged, once.
The eviction loop ignores the answer of `put`, so this rests on the time
remaining of an expired flow being smaller than the table. It is unless the
packets of the flow were far out of order: a flow refreshed at the second of a
late packet and updated at a second an hour later is dropped without a message
(`lostFlow_not_settled`). In runs without such flows nothing is lost
(`settled_iff_fits`).
-/

namespace Devourer

namespace ModFlow

/-- Every flow reported as new either is found in the table and was not logged, or
was logged once and is not in the table; and no put was refused. -/
structure Settled (events : List FlowEvent) (this : ModFlow) : Prop where
  each : ∀ id key msg, .emitNew id key msg ∈ events →
    this.flowTable.get Flow.virt key.hv key.label = some id ∧ logs id events = 0 ∨
      id ∉ this.flowTable.table.nodes ∧ logs id events = 1
  accepted : ∀ id ttl, .put id ttl false ∉ events

/-- The packet runs out the time of no flow whose time remaining the table cannot
take. -/
def Fits (p : Property) (this : ModFlow) : Prop :=
  ∀ id until_, this.Until id until_ → until_ < p.tvSec → (this.flow id).remain < 3600

/-! ## The events of a tick -/

/-- A put that a turn reports is of the flow itself, which has time remaining. -/
theorem put_mem_turnEvents {timeslots id other ttl : ℕ} {taken : Bool} {flow : Flow}
    (member : .put other ttl taken ∈ turnEvents timeslots id flow) :
    other = id ∧ 0 < flow.remain ∧ ttl = sizeOfTime flow.remain ∧
      taken = decide (ttl < timeslots) := by
  unfold turnEvents at member
  split at member
  · rename_i remains
    obtain ⟨rfl, rfl, rfl⟩ := FlowEvent.put.inj (List.mem_singleton.mp member)
    exact ⟨rfl, remains, rfl, rfl⟩
  · split at member
    · cases List.mem_singleton.mp member
    · cases member

/-! ## The invariant -/

/-- The flow is live and was not logged, or was logged once. -/
def Once (id : ℕ) (events : List FlowEvent) (this : ModFlow) : Prop :=
  (∃ slot, this.flowTable.Live id slot) ∧ logs id events = 0 ∨
    (∀ slot, ¬ this.flowTable.Live id slot) ∧ logs id events = 1

/-- Between calls, every flow built so far is live or was logged once. -/
structure Tidy (events : List FlowEvent) (this : ModFlow) : Prop where
  kept : this.Kept
  clocked : this.Clocked
  directed : ∀ id slot, this.flowTable.Live id slot → (this.flow id).initDir ≠ .nil
  named : ∀ id key msg, .emitNew id key msg ∈ events →
    id < this.flowTable.built ∧ (this.flow id).flowKey = key
  unborn : ∀ id, this.flowTable.built ≤ id → logs id events = 0
  held : ∀ id < this.flowTable.built,
    (∃ slot, this.flowTable.Live id slot) ∧ logs id events = 0 ∨
      (∀ slot, ¬ this.flowTable.Live id slot) ∧ logs id events = 1
  accepted : ∀ id ttl, .put id ttl false ∉ events

theorem Tidy.new (evIpv4 evIpv6 : EvId) : Tidy [] (ModFlow.new evIpv4 evIpv6) where
  kept := Kept.new evIpv4 evIpv6
  clocked := Clocked.new evIpv4 evIpv6
  directed _ _ := nofun
  named _ _ _ := nofun
  unborn _ _ := rfl
  held _ := nofun
  accepted _ _ := nofun

theorem Kept.mem_nodes_iff {this : ModFlow} (kept : this.Kept) {id : ℕ} :
    id ∈ this.flowTable.table.nodes ↔ ∃ slot, this.flowTable.Live id slot := by
  rw [Table.nodes, kept.swept, List.append_nil]
  constructor
  · exact Table.exists_slot
  · rintro ⟨slot, live⟩
    exact List.mem_map_of_mem live

/-- The invariant says of the flows reported as new what `Settled` asks for. -/
theorem Tidy.settled {events : List FlowEvent} {this : ModFlow} (tidy : Tidy events this) :
    Settled events this := by
  refine ⟨fun id key msg member => ?_, tidy.accepted⟩
  obtain ⟨known, keyIs⟩ := tidy.named id key msg member
  rcases tidy.held id known with ⟨live, quiet⟩ | ⟨gone, once⟩
  · exact .inl ⟨tidy.kept.get_iff.mpr ⟨live, keyIs⟩, quiet⟩
  · refine .inr ⟨fun inside => ?_, once⟩
    obtain ⟨slot, live⟩ := tidy.kept.mem_nodes_iff.mp inside
    exact gone slot live

/-- The tick logs the expired flows without time remaining. -/
theorem Tidy.logs_tickEvents {events : List FlowEvent} {this : ModFlow} (tidy : Tidy events this)
    (p : Property) (id : ℕ) : logs id (this.tickEvents p) =
      if id ∈ this.expired p ∧ ¬ 0 < (this.flow id).remain then 1 else 0 := by
  refine logs_tickEvents_of_free tidy.kept (fun other due stuck => ?_) id
  obtain ⟨slot, live⟩ := expired_live tidy.kept due
  exact tidy.directed other slot live (Flow.buildMessage_eq_none.mp stuck.2)

/-- What an expired flow has remaining is taken by the table. -/
theorem Fits.sizeOfTime_lt {p : Property} {this : ModFlow} (fits : Fits p this) (kept : this.Kept)
    (clocked : this.Clocked) {id : ℕ} (due : id ∈ this.expired p)
    (remains : 0 < (this.flow id).remain) : sizeOfTime (this.flow id).remain < 3600 := by
  obtain ⟨until_, overdue, held⟩ := (mem_expired_iff kept clocked).mp due
  have small := fits id until_ held overdue
  rw [clocked.sizeOfTime_remain remains]
  omega

/-- A flow is live or was logged once after the tick if it was before. -/
theorem Once.tick {events : List FlowEvent} {this middle : ModFlow} {p : Property} {id : ℕ}
    (once : Once id events this) (kept : this.Kept) (clocked : this.Clocked)
    (ticked : Ticked p this middle) (fits : Fits p this)
    (told : logs id (this.tickEvents p) =
      if id ∈ this.expired p ∧ ¬ 0 < (this.flow id).remain then 1 else 0) :
    Once id (events ++ this.tickEvents p) middle := by
  unfold Once
  rw [logs_append, told]
  rcases once with ⟨⟨slot, live⟩, quiet⟩ | ⟨gone, logged⟩
  · by_cases due : id ∈ this.expired p
    · by_cases remains : 0 < (this.flow id).remain
      · have short := fits.sizeOfTime_lt kept clocked due remains
        rw [if_neg fun both => both.2 remains, quiet]
        exact .inl ⟨⟨_, (ticked.live id _).mpr (.inr ⟨due, remains, short, rfl⟩)⟩, rfl⟩
      · rw [if_pos ⟨due, remains⟩, quiet]
        refine .inr ⟨fun slot' after => ?_, rfl⟩
        rcases (ticked.live id slot').mp after with ⟨-, notDue⟩ | ⟨-, remains', -⟩
        · exact notDue due
        · exact remains remains'
    · rw [if_neg fun both => due both.1, quiet]
      exact .inl ⟨⟨slot, (ticked.live id slot).mpr (.inl ⟨live, due⟩)⟩, rfl⟩
  · have notDue : id ∉ this.expired p := fun due => by
      obtain ⟨slot, live⟩ := expired_live kept due
      exact gone slot live
    rw [if_neg fun both => notDue both.1, logged]
    refine .inr ⟨fun slot' after => ?_, rfl⟩
    obtain ⟨slot, before⟩ := ticked.of_live kept after
    exact gone slot before

/-- **The tick keeps the invariant**, as long as every time remaining fits. -/
theorem Tidy.tick {events : List FlowEvent} {this middle : ModFlow} {p : Property}
    (tidy : Tidy events this) (ticked : Ticked p this middle) (positive : 0 < p.tvSec)
    (fits : Fits p this) : Tidy (events ++ this.tickEvents p) middle := by
  have kept := tidy.kept
  refine ⟨ticked.kept kept, ticked.clocked tidy.clocked positive, fun id slot live => ?_,
    fun id key msg member => ?_, fun id late => ?_, fun id known => ?_, fun id ttl member => ?_⟩
  · obtain ⟨slot', before⟩ := ticked.of_live kept live
    rw [ticked.initDir]
    exact tidy.directed id slot' before
  · rcases List.mem_append.mp member with earlier | now
    · rw [ticked.built, ticked.flowKey]
      exact tidy.named id key msg earlier
    · exact (emitNew_not_mem_tickEvents now).elim
  · rw [ticked.built] at late
    rw [logs_append, tidy.unborn id late, tidy.logs_tickEvents, if_neg]
    rintro ⟨due, -⟩
    obtain ⟨slot, live⟩ := expired_live kept due
    have known := kept.wf.live_lt live
    omega
  · rw [ticked.built] at known
    exact Once.tick (tidy.held id known) kept tidy.clocked ticked fits (tidy.logs_tickEvents p id)
  · rcases List.mem_append.mp member with earlier | now
    · exact tidy.accepted id ttl earlier
    · obtain ⟨other, due, told⟩ := List.mem_flatMap.mp now
      obtain ⟨rfl, remains, rfl, refused⟩ := put_mem_turnEvents told
      exact of_decide_eq_false refused.symm (fits.sizeOfTime_lt kept tidy.clocked due remains)

/-- Counting a packet keeps the invariant. -/
theorem Tidy.count {events : List FlowEvent} {this : ModFlow} (tidy : Tidy events this)
    (p : Property) (id : ℕ) : Tidy (events ++ [.counted id p]) (this.counted p id) := by
  have quiet : ∀ other, logs other (events ++ [.counted id p]) = logs other events := fun other =>
    (logs_append ..).trans (Nat.add_zero _)
  refine ⟨tidy.kept.counted p id, tidy.clocked.counted p id, fun other slot live => ?_,
    fun other key msg member => ?_, fun other late => ?_, fun other known => ?_,
    fun other ttl member => ?_⟩
  · have directed := tidy.directed other slot live
    rw [counted_flow]
    split
    · rename_i self
      rw [Flow.initDir_update, ← self]
      exact directed
    · exact directed
  · rw [counted_flowKey]
    rcases List.mem_append.mp member with earlier | now
    · exact tidy.named other key msg earlier
    · cases List.mem_singleton.mp now
  · rw [quiet]
    exact tidy.unborn other late
  · rw [quiet]
    exact tidy.held other known
  · rcases List.mem_append.mp member with earlier | now
    · exact tidy.accepted other ttl earlier
    · cases List.mem_singleton.mp now

/-- A flow is live or was logged once also after one more was put. -/
theorem Once.added {events : List FlowEvent} {this : ModFlow} (kept : this.Kept)
    (held : ∀ id < this.flowTable.built, Once id events this)
    (unborn : logs this.flowTable.built events = 0) (flow : Flow) {id : ℕ}
    (known : id < (this.added flow).flowTable.built) : Once id events (this.added flow) := by
  have live := added_live kept.size flow
  rcases Nat.lt_succ_iff_lt_or_eq.mp known with earlier | rfl
  · rcases held id earlier with ⟨⟨slot, before⟩, zero⟩ | ⟨gone, once⟩
    · exact .inl ⟨⟨slot, (live id slot).mpr (.inl before)⟩, zero⟩
    · refine .inr ⟨fun slot after => ?_, once⟩
      rcases (live id slot).mp after with before | ⟨rfl, -⟩
      · exact gone slot before
      · exact Nat.lt_irrefl _ earlier
  · exact .inl ⟨⟨_, (live _ _).mpr (.inr ⟨rfl, rfl⟩)⟩, unborn⟩

/-- Putting a new flow keeps the invariant. -/
theorem Tidy.add {events : List FlowEvent} {this : ModFlow} (tidy : Tidy events this)
    {p : Property} (src dst : String) (directed : p.dir ≠ .nil) (positive : 0 < p.tvSec)
    (started : this.lastTs ≠ 0) (msg : Message)
    (unknown : ∀ id slot, this.flowTable.Live id slot → (this.flow id).flowKey ≠ keyOf p) :
    Tidy (events ++ [.emitNew this.flowTable.built (keyOf p) msg,
      .put this.flowTable.built 600 true]) (this.added (Flow.new p src dst)) := by
  have size := tidy.kept.size
  have live := added_live size (Flow.new p src dst)
  have quiet : ∀ other, logs other (events ++ [.emitNew this.flowTable.built (keyOf p) msg,
      .put this.flowTable.built 600 true]) = logs other events := fun other =>
    (logs_append ..).trans (Nat.add_zero _)
  have self := added_flow_self (Flow.new p src dst) this
  refine ⟨tidy.kept.added unknown, tidy.clocked.added started (Int.le_of_lt positive)
    p.tvSec_upper, fun id slot after => ?_, fun id key msg' member => ?_, fun id late => ?_,
    fun id known => ?_, fun id ttl member => ?_⟩
  · rcases (live id slot).mp after with before | ⟨rfl, -⟩
    · rw [added_flow_of_lt (tidy.kept.wf.live_lt before)]
      exact tidy.directed id slot before
    · rw [self]
      exact directed
  · rcases List.mem_append.mp member with earlier | now
    · obtain ⟨known, keyIs⟩ := tidy.named id key msg' earlier
      rw [added_flow_of_lt known]
      exact ⟨Nat.lt_succ_of_lt known, keyIs⟩
    · simp only [List.mem_cons, FlowEvent.emitNew.injEq, reduceCtorEq, List.not_mem_nil, or_false]
        at now
      obtain ⟨rfl, rfl, -⟩ := now
      rw [self]
      exact ⟨Nat.lt_succ_self _, rfl⟩
  · rw [quiet]
    exact tidy.unborn id (Nat.le_of_succ_le late)
  · rw [quiet]
    exact Once.added tidy.kept tidy.held (tidy.unborn _ (Nat.le_refl _)) _ known
  · rcases List.mem_append.mp member with earlier | now
    · exact tidy.accepted id ttl earlier
    · simp at now

/-- **One call keeps the invariant**, as long as every time remaining fits. -/
theorem Tidy.recv {events : List FlowEvent} {this : ModFlow} {p : Property}
    (tidy : Tidy events this) (dns : ModDns) (eid : EvId) (positive : 0 < p.tvSec)
    (directed : p.dir ≠ .nil) (fits : Fits p this) :
    ∃ after, (this.recv dns eid p).result = some after ∧
      Tidy (events ++ (this.recv dns eid p).events) after := by
  rcases recv_spec dns eid p tidy.kept with ⟨⟨id, due, stuck⟩, -⟩ |
    ⟨-, middle, handling, after, ticked, handled, same⟩
  · obtain ⟨slot, live⟩ := expired_live tidy.kept due
    exact (tidy.directed id slot live (Flow.buildMessage_eq_none.mp stuck.2)).elim
  · rw [same]
    refine ⟨after, rfl, ?_⟩
    have between := tidy.tick ticked positive fits
    rw [← List.append_assoc]
    cases handled with
    | skipped =>
        rw [List.append_nil]
        exact between
    | known id slot ip live keyIs => exact between.count p id
    | fresh src dst ip srcIs dstIs unknown =>
        have started : middle.lastTs ≠ 0 := by
          have reached := ticked.lastTs_eq tidy.clocked positive
          omega
        have grown := between.add src dst directed positive started
          (newMessage p (Flow.new p src dst) src dst) unknown
        have whole := grown.count p middle.flowTable.built
        rw [List.append_assoc] at whole
        exact whole

/-! ## Runs -/

/-- A packet with a direction and a positive timestamp. -/
def Valid (input : Input) : Prop := 0 < input.p.tvSec ∧ input.p.dir ≠ .nil

instance : DecidablePred Valid := fun _ => instDecidableAnd

/-- A call that refuses a flow reports so. -/
theorem refused_of_not_fits {this : ModFlow} {p : Property} (kept : this.Kept)
    (clocked : this.Clocked) (notFits : ¬ Fits p this) :
    ∃ id ttl, .put id ttl false ∈ this.tickEvents p := by
  unfold Fits at notFits
  push Not at notFits
  obtain ⟨id, until_, held, overdue, large⟩ := notFits
  have remains : 0 < (this.flow id).remain := by omega
  have due := (mem_expired_iff kept clocked).mpr ⟨until_, overdue, held⟩
  refine ⟨id, sizeOfTime (this.flow id).remain, List.mem_flatMap.mpr ⟨id, due, ?_⟩⟩
  have refused : decide (sizeOfTime (this.flow id).remain < 3600) = false := by
    rw [clocked.sizeOfTime_remain remains]
    apply decide_eq_false
    omega
  unfold turnEvents
  rw [if_pos remains, refused]
  exact List.mem_cons_self

/-- Runs whose calls all fit reach a state, which satisfies the invariant. -/
theorem Tidy.run {evIpv4 evIpv6 : EvId} {inputs : List Input}
    (valid : ∀ input ∈ inputs, Valid input)
    (fits : ∀ calls input, calls ++ [input] <+: inputs →
      ∀ this, ((ModFlow.new evIpv4 evIpv6).run calls).result = some this → Fits input.p this) :
    ∃ this, ((ModFlow.new evIpv4 evIpv6).run inputs).result = some this ∧
      Tidy ((ModFlow.new evIpv4 evIpv6).run inputs).events this := by
  induction inputs using List.reverseRecOn with
  | nil => exact ⟨_, rfl, Tidy.new evIpv4 evIpv6⟩
  | append_singleton calls input ih =>
      have front : calls <+: calls ++ [input] := List.prefix_append _ _
      obtain ⟨this, reached, tidy⟩ := ih (fun other member => valid other (front.subset member))
        fun before other shorter => fits before other (shorter.trans front)
      obtain ⟨positive, directed⟩ := valid input (List.mem_append_right _ List.mem_cons_self)
      obtain ⟨after, returned, tidied⟩ := tidy.recv input.dns input.eid positive directed
        (fits calls input (List.prefix_refl _) this reached)
      refine ⟨after, Exec.run_snoc_result.mpr ⟨this, reached, returned⟩, ?_⟩
      have events : ((ModFlow.new evIpv4 evIpv6).run (calls ++ [input])).events =
          _ ++ (this.recv input.dns input.eid input.p).events :=
        Exec.run_snoc_events input reached
      rw [events]
      exact tidied

/-- **No flow is lost or logged twice, exactly when every time remaining fits the
table.** In a run of packets with positive timestamps in any order, every flow
reported as new is found in the table or was logged once after every call, and no
put is refused, if and only if no call runs out the time of a flow that was
updated 3600 seconds or more after its last refresh. -/
theorem settled_iff_fits (evIpv4 evIpv6 : EvId) (inputs : List Input)
    (valid : ∀ input ∈ inputs, Valid input) :
    (∀ calls, calls <+: inputs →
      ∃ this, ((ModFlow.new evIpv4 evIpv6).run calls).result = some this ∧
        Settled ((ModFlow.new evIpv4 evIpv6).run calls).events this) ↔
    ∀ calls input, calls ++ [input] <+: inputs →
      ∀ this, ((ModFlow.new evIpv4 evIpv6).run calls).result = some this → Fits input.p this := by
  constructor
  · intro settled calls input front this reached
    by_contra notFits
    have inside : ∀ other ∈ calls, 0 < other.p.tvSec := fun other member =>
      (valid other (front.subset (List.mem_append_left _ member))).1
    have kept := Kept.run reached
    obtain ⟨id, ttl, refused⟩ := refused_of_not_fits kept (Clocked.run inside reached) notFits
    obtain ⟨next, returned, good⟩ := settled _ front
    have events := Exec.run_snoc_events input reached
    obtain ⟨before, reached', stepped⟩ := Exec.run_snoc_result.mp returned
    cases reached.symm.trans reached'
    obtain ⟨-, middle, handling, -, -, same⟩ := handled_of_recv kept stepped
    apply good.accepted id ttl
    change _ ∈ (Exec.run _ _ _).events
    rw [events, same]
    exact List.mem_append_right _ (List.mem_append_left _ refused)
  · intro fits calls front
    obtain ⟨this, reached, tidy⟩ := Tidy.run
      (fun input member => valid input (front.subset member))
      fun before input shorter => fits before input (shorter.trans front)
    exact ⟨this, reached, tidy.settled⟩

/-- A flow is first seen in a packet that is an hour late; a second packet of the
flow is on time. When the ticks of the flow run out it has 3600 seconds
remaining. -/
def lostFlow : List Input := [.sample 3605 1, .sample 5 2, .sample 3605 2, .sample 4206 1]

theorem lostFlow_valid : ∀ input ∈ lostFlow, Valid input ∧ input.eid = 4 := by
  decide

/-- The late flow is reported as new, but in the end it is neither in the table
nor logged. -/
theorem lostFlow_not_settled : (∀ input ∈ lostFlow, Valid input ∧ input.eid = 4) ∧
    ∃ this, ((ModFlow.new 4 6).run lostFlow).result = some this ∧
      (∃ msg, .emitNew 1 ⟨2, []⟩ msg ∈ ((ModFlow.new 4 6).run lostFlow).events) ∧
      logs 1 ((ModFlow.new 4 6).run lostFlow).events = 0 ∧ 1 ∉ this.flowTable.table.nodes ∧
      .put 1 3600 false ∈ ((ModFlow.new 4 6).run lostFlow).events ∧
      ¬ Settled ((ModFlow.new 4 6).run lostFlow).events this := by
  refine ⟨lostFlow_valid, ?_⟩
  have nodes : ((ModFlow.new 4 6).run lostFlow).result.map
      (fun this => this.flowTable.table.nodes) = some [2] := by
    decide +kernel
  obtain ⟨this, reached, held⟩ := Option.map_eq_some_iff.mp nodes
  have refused : FlowEvent.put 1 3600 false ∈ ((ModFlow.new 4 6).run lostFlow).events := by
    decide +kernel
  refine ⟨this, reached, ⟨newMessage (Property.sample 5 2) (Flow.new (Property.sample 5 2) "" "")
    "" "", ?_⟩, ?_, ?_, refused, fun settled => settled.accepted 1 3600 refused⟩
  · decide +kernel
  · decide +kernel
  · rw [held]
    decide

theorem settled_iff_fits_sample :
    (∀ calls, calls <+: lostFlow →
      ∃ this, ((ModFlow.new 4 6).run calls).result = some this ∧
        Settled ((ModFlow.new 4 6).run calls).events this) ↔
    ∀ calls input, calls ++ [input] <+: lostFlow →
      ∀ this, ((ModFlow.new 4 6).run calls).result = some this → Fits input.p this :=
  settled_iff_fits 4 6 lostFlow fun input member => (lostFlow_valid input member).1

end ModFlow

end Devourer
