import Devourer.Foundation.Origin
import Devourer.Modules.Flow.Step

/-! # Flows without a direction

`recv` takes packets of any direction, and the first packet of a flow gives the flow its
own for good. Only when the flow is evicted, long after, does `build_message` assert that
there is one. The assertion holds as far as the packets that began the evicted flows had
a direction (`evicts_directed_iff`).
-/

namespace Devourer

namespace ModFlow

/-- The flows built so far. -/
def builtFlows (this : ModFlow) : ℕ := this.flowTable.built

/-- The call built the flow with the number. -/
abbrev BuiltIn (evIpv4 evIpv6 : EvId) : List Input → ℕ → Input → Prop :=
  Exec.BuiltIn (fun this input => this.recv input.dns input.eid input.p)
    (ModFlow.new evIpv4 evIpv6) builtFlows

/-- Every flow that is logged has a direction, and no call runs into the assertion. -/
structure EvictsDirected (evIpv4 evIpv6 : EvId) (inputs : List Input) : Prop where
  logged : ∀ calls input, calls ++ [input] <+: inputs → ∀ this,
    ((ModFlow.new evIpv4 evIpv6).run calls).result = some this → ∀ id ∈ this.expired input.p,
      ¬ 0 < (this.flow id).remain → (this.flow id).initDir ≠ .nil
  returns : ((ModFlow.new evIpv4 evIpv6).run inputs).result ≠ none

/-- The expired flows without time remaining were begun by packets with a direction. -/
def BegunDirected (evIpv4 evIpv6 : EvId) (calls : List Input) (this : ModFlow) (input : Input) :
    Prop :=
  ∀ id ∈ this.expired input.p, ¬ 0 < (this.flow id).remain → ∀ call,
    BuiltIn evIpv4 evIpv6 calls id call → call.p.dir ≠ .nil

variable {evIpv4 evIpv6 : EvId} {inputs calls : List Input} {call : Input} {dns : ModDns}
  {eid : EvId} {p : Property} {this middle after : ModFlow} {events : List FlowEvent} {id : ℕ}

/-! ## Which packet began a flow -/

/-- Handling a packet may build a flow, with the direction of the packet. -/
theorem Handled.built (handled : Handled dns eid p this events after) :
    after.builtFlows = this.builtFlows ∨ after.builtFlows = this.builtFlows + 1 ∧
      (after.flow this.builtFlows).initDir = p.dir := by
  cases handled with
  | skipped => exact .inl rfl
  | known => exact .inl rfl
  | fresh src dst =>
      refine .inr ⟨rfl, ?_⟩
      rw [counted_flow, builtFlows, if_pos rfl, Flow.initDir_update, added_flow_self]
      rfl

/-- What no packet changes of a flow that was built before stays as it was. -/
theorem Handled.fixed {β : Type} {read : Flow → β} (handled : Handled dns eid p this events after)
    (update : ∀ (p : Property) (flow : Flow), read (flow.update p) = read flow)
    (known : id < this.builtFlows) : read (after.flow id) = read (this.flow id) := by
  have count : ∀ (state : ModFlow) other,
      read ((state.counted p other).flow id) = read (state.flow id) := by
    intro state other
    rw [counted_flow]
    split
    · rename_i self
      rw [update, self]
    · rfl
  cases handled with
  | skipped => rfl
  | known other => exact count this other
  | fresh src dst => rw [count, added_flow_of_lt known]

theorem builtFlows_grows (calls : List Input) (this : ModFlow)
    (reached : ((ModFlow.new evIpv4 evIpv6).run calls).result = some this) (input : Input)
    (after : ModFlow) (returned : (this.recv input.dns input.eid input.p).result = some after) :
    this.builtFlows ≤ after.builtFlows := by
  obtain ⟨-, middle, events, ticked, handled, -⟩ :=
    handled_of_recv (Kept.run reached) returned
  have before : middle.builtFlows = this.builtFlows := ticked.built
  rcases handled.built with rest | ⟨grown, -⟩ <;> omega

/-- **A flow has the direction of the packet that began it.** -/
theorem initDir_of_builtIn (built : BuiltIn evIpv4 evIpv6 calls id call)
    (reached : ((ModFlow.new evIpv4 evIpv6).run calls).result = some this) :
    (this.flow id).initDir = call.p.dir := by
  induction calls using List.reverseRecOn generalizing this with
  | nil => exact (Exec.not_builtIn_nil built).elim
  | append_singleton calls input ih =>
      obtain ⟨before, earlier, returned⟩ := Exec.run_snoc_result.mp reached
      have place := (Exec.builtIn_snoc earlier).mp built
      obtain ⟨-, middle, events, ticked, handled, -⟩ :=
        handled_of_recv (Kept.run earlier) returned
      have ticks : middle.builtFlows = before.builtFlows := ticked.built
      rcases place with old | ⟨rfl, after, stepped, lower, upper⟩
      · have known := Exec.BuiltIn.lt builtFlows_grows old earlier
        rw [handled.fixed Flow.initDir_update (ticks ▸ known), ticked.initDir]
        exact ih old earlier
      · cases returned.symm.trans stepped
        rcases handled.built with rest | ⟨grown, dir⟩
        · omega
        · obtain rfl : id = middle.builtFlows := by omega
          exact dir

/-- Every flow was begun by a packet. -/
theorem exists_begun (reached : ((ModFlow.new evIpv4 evIpv6).run calls).result = some this)
    (known : id < this.builtFlows) : ∃ call, BuiltIn evIpv4 evIpv6 calls id call :=
  Exec.exists_builtIn reached (Nat.zero_le id) known

/-! ## Evictions -/

/-- A call returns when the flows that it logs have a direction. -/
theorem recv_returns (dns : ModDns) (eid : EvId) (kept : this.Kept)
    (directed : ∀ id ∈ this.expired p, ¬ 0 < (this.flow id).remain →
      (this.flow id).initDir ≠ .nil) :
    ∃ after, (this.recv dns eid p).result = some after := by
  rcases recv_spec dns eid p kept with ⟨⟨id, due, overdue, silent⟩, -⟩ |
    ⟨-, middle, events, after, -, -, same⟩
  · exact (directed id due overdue (Flow.buildMessage_eq_none.mp silent)).elim
  · exact ⟨after, congrArg Exec.result same⟩

/-- **When the assertion is not reached.** Every evicted flow has a direction, and no call
aborts, if and only if the expired flows without time remaining were begun by packets
with a direction. -/
theorem evicts_directed_iff (evIpv4 evIpv6 : EvId) (inputs : List Input) :
    EvictsDirected evIpv4 evIpv6 inputs ↔ ∀ calls input, calls ++ [input] <+: inputs → ∀ this,
      ((ModFlow.new evIpv4 evIpv6).run calls).result = some this →
        BegunDirected evIpv4 evIpv6 calls this input := by
  constructor
  · intro evicts calls input prior this reached id due overdue call built
    rw [← initDir_of_builtIn built reached]
    exact evicts.logged calls input prior this reached id due overdue
  · intro begun
    have logged : ∀ calls input, calls ++ [input] <+: inputs → ∀ this,
        ((ModFlow.new evIpv4 evIpv6).run calls).result = some this →
          ∀ id ∈ this.expired input.p, ¬ 0 < (this.flow id).remain →
            (this.flow id).initDir ≠ .nil := by
      intro calls input prior this reached id due overdue
      obtain ⟨slot, live⟩ := expired_live (Kept.run reached) due
      obtain ⟨call, built⟩ := exists_begun reached ((Kept.run reached).wf.live_lt live)
      rw [initDir_of_builtIn built reached]
      exact begun calls input prior this reached id due overdue call built
    refine ⟨logged, ?_⟩
    -- a call that aborts would be the first to do so
    have all : ∀ calls, calls <+: inputs →
        ((ModFlow.new evIpv4 evIpv6).run calls).result ≠ none := by
      intro calls prior
      induction calls using List.reverseRecOn with
      | nil => exact Option.some_ne_none _
      | append_singleton calls input ih =>
          obtain ⟨this, reached⟩ := Option.ne_none_iff_exists'.mp
            (ih ((List.prefix_append calls [input]).trans prior))
          obtain ⟨after, returned⟩ := recv_returns input.dns input.eid (Kept.run reached)
            (logged calls input prior this reached)
          have ends := Exec.run_snoc_result.mpr ⟨this, reached, returned⟩
          exact fun none => Option.some_ne_none after (ends.symm.trans none)
    exact all inputs (List.prefix_refl _)

/-- A packet without a direction, and ten minutes later another packet. -/
def undirected : List Input :=
  [⟨ModDns.new, 4, { Property.sample 1 1 with dir := .nil }⟩, .sample 602 2]

/-- **The second packet finds the flow of the first expired**, and the call aborts. -/
theorem undirected_not_evicted : ¬ EvictsDirected 4 6 undirected :=
  fun evicts => evicts.returns (by decide +kernel)

end ModFlow

end Devourer
