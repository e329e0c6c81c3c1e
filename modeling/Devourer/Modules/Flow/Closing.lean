import Devourer.Modules.Flow.Quiet

/-! # The end of a capture

The destructor of `ModFlow` purges the flow table and deletes every flow that it
pops, without a message; the destructor of `ModDns` reports the queries it pops.
A flow that was reported as new is therefore logged over the life of the module
unless the table still held it at the end (`reported_iff_empty`). As every IP packet
leaves its flow in the table, only a capture without packets reports all its flows.
-/

namespace Devourer

namespace ModFlow

/-- The whole life of the module after its construction. -/
def life (inputs : List Input) (start : ModFlow) : Exec FlowEvent ModFlow :=
  start.run inputs >>= destroy

/-- Is this the report of the flow as new? -/
def isOpen (id : ℕ) : FlowEvent → Bool
  | .emitNew other _ _ => other = id
  | _ => false

/-- How often the flow was reported as new. -/
def opens (id : ℕ) (events : List FlowEvent) : ℕ := events.countP (isOpen id)

/-- The flows reported as new and those logged are the same, each reported once. -/
def AllReported (events : List FlowEvent) : Prop :=
  ∀ id, opens id events = logs id events ∧ opens id events ≤ 1

/-! ## The destructor -/

/-- The loop pops all expired nodes and reports nothing. -/
theorem drain_eq {fuel : ℕ} {this : ModFlow} (enough : this.flowTable.table.exp.length < fuel) :
    ∃ after, this.drain fuel = ⟨[], some after⟩ ∧ after.flowTable.table.exp = [] ∧
      after.flowTable.table.live = this.flowTable.table.live := by
  induction fuel generalizing this with
  | zero => exact (Nat.not_lt_zero _ enough).elim
  | succ fuel ih =>
      obtain ⟨⟨⟨size, tick, live, exp⟩, object, built⟩, evIpv4, evIpv6, lastTs, map⟩ := this
      cases exp with
      | nil => exact ⟨_, rfl, rfl, rfl⟩
      | cons id rest =>
          have smaller : rest.length < fuel := Nat.lt_of_succ_lt_succ enough
          exact @ih ⟨⟨⟨size, tick, live, rest⟩, object, built⟩, evIpv4, evIpv6, lastTs, map⟩ smaller

/-- The destructor leaves no flow behind, and reports nothing. -/
theorem destroy_eq {this : ModFlow} (kept : this.Kept) :
    ∃ after, this.destroy = ⟨[], some after⟩ ∧ after.flowTable.table.nodes = [] := by
  have purged : this.flowTable.table.purge.live = [] := Table.purge_live kept.wf.table.inside
  obtain ⟨after, same, popped, live⟩ := @drain_eq _
    { this with flowTable := { this.flowTable with table := this.flowTable.table.purge } }
    (Nat.lt_succ_self _)
  refine ⟨after, same, ?_⟩
  rw [Table.nodes, popped, live, purged]
  rfl

/-- The destructor adds nothing to what the calls reported. -/
theorem life_eq {inputs : List Input} {start this : ModFlow} (kept : this.Kept)
    (reached : (start.run inputs).result = some this) :
    ∃ after, start.life inputs = ⟨(start.run inputs).events, some after⟩ ∧
      after.flowTable.table.nodes = [] := by
  obtain ⟨after, destroyed, empty⟩ := destroy_eq kept
  refine ⟨after, ?_, empty⟩
  unfold life
  rw [Exec.bind_of_result reached, destroyed, List.append_nil]

/-! ## The reports of a life -/

theorem opens_append (id : ℕ) (first second : List FlowEvent) :
    opens id (first ++ second) = opens id first + opens id second := List.countP_append ..

theorem opens_tickEvents (p : Property) (this : ModFlow) (id : ℕ) :
    opens id (this.tickEvents p) = 0 := by
  apply List.countP_eq_zero.mpr
  intro event member
  obtain ⟨other, -, ⟨-, ttl, taken, rfl⟩ | ⟨-, msg, -, rfl⟩⟩ := tickEvents_cases member <;> nofun

/-- Every flow that was built was reported as new once. -/
theorem opens_eq {evIpv4 evIpv6 : EvId} {inputs : List Input} {this : ModFlow}
    (reached : ((ModFlow.new evIpv4 evIpv6).run inputs).result = some this) (id : ℕ) :
    opens id ((ModFlow.new evIpv4 evIpv6).run inputs).events =
      if id < this.flowTable.built then 1 else 0 := by
  revert id
  refine (run_induction (Kept.new evIpv4 evIpv6) (fun _ events this => ∀ id,
    opens id events = if id < this.flowTable.built then 1 else 0) (fun _ => rfl)
    (fun _ input _ this _ _ _ _ ticked handled opened id => ?_) reached).2
  rw [opens_append, opens_append, opened, opens_tickEvents, ← ticked.built, Nat.zero_add]
  cases handled with
  | skipped => rfl
  | known => rfl
  | fresh src dst =>
      rename_i middle _ _ _ _ _
      change _ + opens id [_, _, _] = if id < middle.flowTable.built + 1 then 1 else 0
      simp only [opens, isOpen, List.countP_cons, List.countP_nil]
      grind

/-- An IP packet leaves its flow in the table. -/
theorem exists_live_of_recv {input : Input} {this after : ModFlow} (kept : this.Kept)
    (ip : input.eid = this.evIpv4 ∨ input.eid = this.evIpv6)
    (returned : (this.recv input.dns input.eid input.p).result = some after) :
    ∃ id slot, after.flowTable.Live id slot := by
  obtain ⟨-, middle, handling, ticked, handled, -⟩ :=
    handled_of_recv kept returned
  cases handled with
  | skipped other =>
      rw [ticked.evIpv4, ticked.evIpv6] at other
      exact (other ip).elim
  | known id slot _ live => exact ⟨id, slot, live⟩
  | fresh src dst => exact ⟨_, _, (added_live ticked.size _ _ _).mpr (.inr ⟨rfl, rfl⟩)⟩

/-- Between calls the flows that were not logged are those in the table. -/
theorem Tidy.allReported_iff {events : List FlowEvent} {this : ModFlow} (tidy : Tidy events this)
    (opened : ∀ id, opens id events = if id < this.flowTable.built then 1 else 0) :
    AllReported events ↔ this.flowTable.table.nodes = [] := by
  constructor
  · intro all
    apply List.eq_nil_iff_forall_not_mem.mpr
    intro id inside
    obtain ⟨slot, live⟩ := tidy.kept.mem_nodes_iff.mp inside
    have known := tidy.kept.wf.live_lt live
    obtain ⟨same, -⟩ := all id
    rw [opened, if_pos known] at same
    rcases tidy.held id known with ⟨-, zero⟩ | ⟨gone, -⟩
    · rw [zero] at same
      cases same
    · exact gone slot live
  · intro empty id
    rw [opened]
    by_cases known : id < this.flowTable.built
    · rw [if_pos known]
      rcases tidy.held id known with ⟨live, -⟩ | ⟨-, once⟩
      · have inside := tidy.kept.mem_nodes_iff.mpr live
        rw [empty] at inside
        cases inside
      · exact ⟨once.symm, Nat.le_refl 1⟩
    · rw [if_neg known]
      exact ⟨(tidy.unborn id (Nat.not_lt.mp known)).symm, Nat.zero_le 1⟩

/-- **Which flows are reported over the life of the module.** In a run of packets with
directions and nondecreasing positive timestamps the module returns from every call
and from its destructor, which leaves no flow behind; every flow was reported as new
and was logged, if and only if the table held no flow at the end of the run. -/
theorem reported_iff_empty (evIpv4 evIpv6 : EvId) (inputs : List Input) (sorted : Sorted inputs)
    (valid : ∀ input ∈ inputs, Valid input) :
    ∃ this after, ((ModFlow.new evIpv4 evIpv6).run inputs).result = some this ∧
      ((ModFlow.new evIpv4 evIpv6).life inputs).result = some after ∧
      after.flowTable.table.nodes = [] ∧
      (AllReported ((ModFlow.new evIpv4 evIpv6).life inputs).events ↔
        this.flowTable.table.nodes = []) ∧
      ((∀ input ∈ inputs, input.eid = evIpv4 ∨ input.eid = evIpv6) →
        (AllReported ((ModFlow.new evIpv4 evIpv6).life inputs).events ↔ inputs = [])) := by
  obtain ⟨this, reached, tidy⟩ := exists_tidy evIpv4 evIpv6 sorted valid
  obtain ⟨after, life, empty⟩ := life_eq tidy.kept reached
  have reported := tidy.allReported_iff (opens_eq reached)
  rw [life]
  refine ⟨this, after, reached, rfl, empty, reported, fun ip => ?_⟩
  rw [reported]
  constructor
  · intro none
    cases inputs using List.reverseRecOn with
    | nil => rfl
    | append_singleton calls input =>
        obtain ⟨before, earlier, returned⟩ := Exec.run_snoc_result.mp reached
        obtain ⟨four, six⟩ := bound_run (Kept.new evIpv4 evIpv6) earlier
        have last := ip input (List.mem_append_right _ List.mem_cons_self)
        obtain ⟨id, slot, live⟩ := exists_live_of_recv (Kept.run earlier)
          (by rw [four, six]; exact last) returned
        have inside := live.mem_nodes
        rw [none] at inside
        cases inside
  · rintro rfl
    cases reached
    rfl

/-- The one packet of the capture is reported as a new flow, which is never logged. -/
theorem lastFlow_not_reported : Sorted [Input.sample 1 1] ∧ Valid (.sample 1 1) ∧
    opens 0 ((ModFlow.new 4 6).life [.sample 1 1]).events = 1 ∧
    logs 0 ((ModFlow.new 4 6).life [.sample 1 1]).events = 0 ∧
    ¬ AllReported ((ModFlow.new 4 6).life [.sample 1 1]).events := by
  have computed : ((ModFlow.new 4 6).run [.sample 1 1]).result.isSome ∧
      opens 0 ((ModFlow.new 4 6).run [.sample 1 1]).events = 1 ∧
      logs 0 ((ModFlow.new 4 6).run [.sample 1 1]).events = 0 := by
    decide +kernel
  obtain ⟨returns, opened, unlogged⟩ := computed
  obtain ⟨this, reached⟩ := Option.isSome_iff_exists.mp returns
  obtain ⟨after, life, -⟩ := life_eq (Kept.run reached) reached
  rw [life]
  refine ⟨by decide, by decide, opened, unlogged, fun all => ?_⟩
  have same := (all 0).1
  rw [opened, unlogged] at same
  cases same

/-- A packet of another event comes after the flow was quiet for long enough. -/
theorem reported_iff_empty_sample :
    AllReported ((ModFlow.new 4 6).life
      [.sample 1 1, ⟨ModDns.new, 0, Property.sample 700 1⟩]).events := by
  obtain ⟨this, after, reached, -, -, reported, -⟩ := reported_iff_empty 4 6
    [.sample 1 1, ⟨ModDns.new, 0, Property.sample 700 1⟩] (by decide) (by decide)
  have empty : ((ModFlow.new 4 6).run
      [.sample 1 1, ⟨ModDns.new, 0, Property.sample 700 1⟩]).result.map
        (fun this => this.flowTable.table.nodes) = some [] := by
    decide +kernel
  rw [reached] at empty
  exact reported.mpr (Option.some.inj empty)

end ModFlow

end Devourer
