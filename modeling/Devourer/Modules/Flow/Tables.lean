import Devourer.LRUHash.Client
import Devourer.Modules.Flow.Step

/-! # The flow table over pointers

`ModFlow` keeps the rule of a client of `LRUHash`: it puts a flow when it has just
built or popped it, and changes neither its hash value nor its label afterwards.
The flow table of every run is therefore realized by a table over pointers.
-/

namespace Devourer

namespace ModFlow

/-- The flow table stands for a table over pointers. -/
abbrev Realized (buckets : ℕ) (this : ModFlow) : Prop :=
  this.flowTable.Realized Flow.virt 3600 buckets

variable {buckets : ℕ} {this after : ModFlow} {p : Property}

/-- The table is empty before the first packet. -/
theorem Realized.new (evIpv4 evIpv6 : EvId) : (ModFlow.new evIpv4 evIpv6).Realized buckets :=
  Pool.Realized.new Flow.virt buckets (by decide)

/-- A turn of the eviction loop puts the flow it popped. -/
theorem Realized.turn (realized : this.Realized buckets) {id : ℕ} {rest : List ℕ}
    (exp : this.flowTable.table.exp = id :: rest) :
    (turn p id (this.popped rest)).Realized buckets := by
  have popped : this.flowTable.pop = (some id, (this.popped rest).flowTable) := by
    unfold Pool.pop Table.pop
    rw [exp]
    rfl
  obtain ⟨-, smaller, off⟩ := Pool.Realized.pop realized
  rw [popped] at smaller off
  unfold ModFlow.turn
  split
  · exact (smaller.put (off id rfl) _).modify id (fun _ => rfl) fun _ => rfl
  · exact smaller

/-- The loop pops one flow in each turn. -/
theorem Realized.evict (realized : this.Realized buckets) {fuel : ℕ}
    (returned : (evict p fuel this).result = some after) : after.Realized buckets := by
  induction fuel generalizing this with
  | zero =>
      cases returned
      exact realized
  | succ fuel ih =>
      cases exp : this.flowTable.table.exp with
      | nil =>
          rw [evict_of_nil p fuel exp] at returned
          cases returned
          exact realized
      | cons id rest =>
          rw [evict_of_cons p fuel exp] at returned
          obtain ⟨next, turned, returned⟩ := Exec.bind_result_eq_some.mp returned
          apply ih _ returned
          by_cases stuck : Stuck ((this.popped rest).flow id)
          · rw [expire_of_stuck stuck] at turned
            cases turned
          · rw [expire_of_not_stuck stuck] at turned
            cases turned
            exact realized.turn exp

/-- The ticks are a call of `prog`, with the evictions after it. -/
theorem Realized.tick (realized : this.Realized buckets)
    (returned : (this.tick p).result = some after) : after.Realized buckets := by
  unfold ModFlow.tick at returned
  split at returned
  · cases returned
    exact realized
  split at returned
  · apply Realized.evict _ returned
    exact Pool.Realized.prog realized _
  · cases returned
    exact realized

/-- A packet that is counted changes neither the hash value nor the label of the flow. -/
theorem Realized.counted (realized : this.Realized buckets) (id : ℕ) :
    (this.counted p id).Realized buckets := by
  apply Pool.Realized.modify realized
  · intro flow
    exact congrArg FlowKey.hv (Flow.flowKey_update p flow)
  · intro flow
    have same := congrArg FlowKey.label (Flow.flowKey_update p flow)
    funext key
    change decide ((flow.update p).flowKey.label = key) = _
    rw [same]
    rfl

/-- Handling a packet puts at most one flow. -/
theorem Handled.realized {dns : ModDns} {eid : EvId} {events : List FlowEvent}
    (handled : Handled dns eid p this events after) (wf : this.flowTable.WF)
    (realized : this.Realized buckets) : after.Realized buckets := by
  cases handled with
  | skipped => exact realized
  | known id => exact realized.counted id
  | fresh src dst =>
      apply Realized.counted
      exact Pool.Realized.add realized wf _ _

/-- One call of the module. -/
theorem Realized.recv {dns : ModDns} {eid : EvId} (realized : this.Realized buckets)
    (kept : this.Kept) (returned : (this.recv dns eid p).result = some after) :
    after.Realized buckets := by
  obtain ⟨middle, moved, returned⟩ := Exec.bind_result_eq_some.mp returned
  obtain ⟨-, ⟨-, aborted⟩ | ⟨-, -, middle', moved', ticked⟩⟩ := tick_spec p kept
  · rw [aborted] at moved
    cases moved
  rw [moved'] at moved
  cases moved
  obtain ⟨events, after', same, handled⟩ := handled_packet dns eid p ticked.size
  rw [same] at returned
  cases returned
  exact handled.realized ticked.wf (realized.tick moved')

/-- **The flow table is one over pointers.** After every run that returns, some
legal history of `LRUHash` leads to a table over pointers that represents the
flow table, with the hash values and labels of its flows. -/
theorem Realized.run (buckets : ℕ) {evIpv4 evIpv6 : EvId} {inputs : List Input}
    (reached : ((ModFlow.new evIpv4 evIpv6).run inputs).result = some this) :
    this.Realized buckets := by
  refine (Exec.run_invariant (fun _ _ this => this.Kept ∧ this.Realized buckets)
    ⟨Kept.new evIpv4 evIpv6, Realized.new evIpv4 evIpv6⟩ ?_ inputs this reached).2
  intro _ _ _ _ ⟨kept, realized⟩ returned
  exact ⟨kept.recv returned, realized.recv kept returned⟩

/-- **Logged flows may be deleted.** No pointer path leads from the table to a flow
that it no longer holds. -/
theorem logged_unreachable (buckets : ℕ) {evIpv4 evIpv6 : EvId} {inputs : List Input}
    (reached : ((ModFlow.new evIpv4 evIpv6).run inputs).result = some this) :
    ∃ world, this.flowTable.Behind Flow.virt 3600 buckets world ∧
      ∀ id, (∀ slot, ¬ this.flowTable.Live id slot) → ∀ root, world.hash.Root root →
        ¬ Relation.ReflTransGen world.hash.heap.Points root (.node id) := by
  have kept := Kept.run reached
  obtain ⟨world, behind, unreachable⟩ := (Realized.run buckets reached).unreachable
  refine ⟨world, behind, fun id gone => unreachable id fun member => ?_⟩
  rw [Table.nodes, kept.swept, List.append_nil] at member
  obtain ⟨slot, live⟩ := Table.exists_slot member
  exact gone slot live

end ModFlow

end Devourer
