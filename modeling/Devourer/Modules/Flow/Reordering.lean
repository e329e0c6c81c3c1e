import Devourer.Modules.Flow.Clock
import Devourer.Modules.Flow.Directions
import Devourer.Modules.Flow.Report
import Mathlib.Order.Bounds.Basic

/-! # Packets that come out of order

The clock of the module does not step backwards, but a flow takes the second of whichever
packet is counted in it as the time of its last update. A packet that was delayed so moves
this time back, and the flow is evicted earlier and logged with the second of this packet
as its last. `times_ordered_iff` says when the times are right.
-/

namespace Devourer

namespace ModFlow

/-- The seconds of the packets counted in the flow. -/
def seconds (id : ℕ) (events : List FlowEvent) : Set ℤ :=
  {second | ∃ p ∈ packets id events, p.tvSec = second}

/-- A logged flow shows the latest second of its packets as its last, and no later one as its
first; and no packet moves the last update of a flow back. -/
structure TimesOrdered (evIpv4 evIpv6 : EvId) (inputs : List Input) : Prop where
  latest : ∀ calls input, calls ++ [input] <+: inputs → ∀ this,
    ((ModFlow.new evIpv4 evIpv6).run calls).result = some this → ∀ id key log,
      .emitLog id key log ∈ (this.recv input.dns input.eid input.p).events → ∃ last,
        IsGreatest (seconds id ((ModFlow.new evIpv4 evIpv6).run calls).events) last ∧
          log.field "last_ts" = some (.int last)
  spans : ∀ calls input, calls ++ [input] <+: inputs → ∀ this,
    ((ModFlow.new evIpv4 evIpv6).run calls).result = some this → ∀ id key log,
      .emitLog id key log ∈ (this.recv input.dns input.eid input.p).events → ∃ init last,
        log.field "init_ts" = some (.int init) ∧ log.field "last_ts" = some (.int last) ∧
          init ≤ last
  forwards : ∀ calls input, calls ++ [input] <+: inputs → ∀ this,
    ((ModFlow.new evIpv4 evIpv6).run calls).result = some this → ∀ after,
      (this.recv input.dns input.eid input.p).result = some after → ∀ id < this.builtFlows,
        (this.flow id).updatedAt ≤ (after.flow id).updatedAt

/-- If the packet belongs to a live flow, it is not older than the last update of the flow. -/
def InOrder (evIpv4 evIpv6 : EvId) (this : ModFlow) (input : Input) : Prop :=
  input.eid = evIpv4 ∨ input.eid = evIpv6 → ∀ id slot, this.flowTable.Live id slot →
    (this.flow id).flowKey = keyOf input.p → (this.flow id).updatedAt ≤ input.p.tvSec

/-- The expired flows without time remaining were last updated in a second that fits
`unsigned int`. -/
def LastFits (this : ModFlow) (input : Input) : Prop :=
  ∀ id ∈ this.expired input.p, ¬ 0 < (this.flow id).remain → (this.flow id).updatedAt < 2 ^ 32

instance (evIpv4 evIpv6 : EvId) (this : ModFlow) (input : Input) :
    Decidable (InOrder evIpv4 evIpv6 this input) :=
  decidable_of_iff (input.eid = evIpv4 ∨ input.eid = evIpv6 →
    ∀ entry ∈ this.flowTable.table.live, (this.flow entry.1).flowKey = keyOf input.p →
      (this.flow entry.1).updatedAt ≤ input.p.tvSec)
    (forall_congr' fun _ =>
      ⟨fun all id slot => all (id, slot), fun all entry => all entry.1 entry.2⟩)

instance (this : ModFlow) (input : Input) : Decidable (LastFits this input) :=
  inferInstanceAs (Decidable (∀ id ∈ this.expired input.p, _))

variable {evIpv4 evIpv6 : EvId} {inputs calls : List Input} {input : Input} {dns : ModDns}
  {eid : EvId} {p : Property} {this middle after : ModFlow} {events : List FlowEvent} {id : ℕ}
  {key : FlowKey} {log : Message}

/-! ## One call -/

/-- Handling a packet leaves a flow as it was last updated, or counts the packet in it. -/
theorem Handled.updatedAt (handled : Handled dns eid p this events after)
    (known : id < this.builtFlows) :
    (after.flow id).updatedAt = (this.flow id).updatedAt ∧ packets id events = [] ∨
      (eid = this.evIpv4 ∨ eid = this.evIpv6) ∧ (∃ slot, this.flowTable.Live id slot) ∧
        (this.flow id).flowKey = keyOf p ∧ (after.flow id).updatedAt = p.tvSec ∧
          packets id events = [p] := by
  cases handled with
  | skipped => exact .inl ⟨rfl, rfl⟩
  | known other slot ip live same =>
      rw [counted_flow]
      by_cases self : id = other
      · subst self
        rw [if_pos rfl, Flow.updatedAt_update]
        exact .inr ⟨ip, ⟨slot, live⟩, same, rfl, by simp [packets]⟩
      · rw [if_neg self]
        exact .inl ⟨rfl, (silent_counted (Ne.symm self) p).1⟩
  | fresh src dst =>
      have other : id ≠ this.flowTable.built := Nat.ne_of_lt known
      rw [counted_flow, if_neg other, added_flow_of_lt known]
      exact .inl ⟨rfl, by simp [packets, other.symm]⟩

/-- A packet that belongs to a live flow is counted in it. -/
theorem Handled.updates (handled : Handled dns eid p this events after) (kept : this.Kept)
    (ip : eid = this.evIpv4 ∨ eid = this.evIpv6) {slot : ℕ} (live : this.flowTable.Live id slot)
    (same : (this.flow id).flowKey = keyOf p) : (after.flow id).updatedAt = p.tvSec := by
  cases handled with
  | skipped foreign => exact (foreign ip).elim
  | known other slot' _ live' same' =>
      obtain rfl := kept.keyed id other slot slot' live live' (same.trans same'.symm)
      rw [counted_flow, if_pos rfl, Flow.updatedAt_update]
  | fresh _ _ _ _ _ unknown => exact (unknown id slot live same).elim

/-- A new flow begins with the second of its packet. -/
theorem Handled.begins (handled : Handled dns eid p this events after)
    (fresh : ¬ id < this.builtFlows) (known : id < after.builtFlows) :
    (after.flow id).updatedAt = p.tvSec ∧ (after.flow id).createdAt = p.tvSec ∧
      packets id events = [p] := by
  cases handled with
  | skipped => exact (fresh known).elim
  | known => exact (fresh known).elim
  | fresh src dst =>
      have last : id < this.builtFlows + 1 := known
      obtain rfl : id = this.flowTable.built :=
        Nat.eq_of_lt_succ_of_not_lt last fresh
      rw [counted_flow, if_pos rfl, added_flow_self, Flow.updatedAt_update]
      refine ⟨rfl, ?_, by simp [packets]⟩
      unfold Flow.update Flow.new
      cases p.dir <;> rfl

theorem createdAt_update (p : Property) (flow : Flow) :
    (flow.update p).createdAt = flow.createdAt := by
  unfold Flow.update
  cases p.dir <;> rfl

/-! ## Runs -/

/-- Flows are created after second zero, and their last update is not ahead of the clock. -/
structure Behind (this : ModFlow) : Prop where
  clocked : this.Clocked
  created : ∀ id < this.builtFlows, 0 < (this.flow id).createdAt
  updated : ∀ id < this.builtFlows, (this.flow id).updatedAt ≤ this.lastTs

theorem Behind.step (behind : this.Behind) (positive : 0 < p.tvSec) (ticked : Ticked p this middle)
    (handled : Handled dns eid p middle events after) : after.Behind := by
  have now := ticked.lastTs_eq behind.clocked positive
  have still := handled.lastTs
  have built : middle.builtFlows = this.builtFlows := ticked.built
  have clocked := handled.clocked (ticked.clocked behind.clocked positive) (by omega) positive
  have created : ∀ id, (middle.flow id).createdAt = (this.flow id).createdAt :=
    ticked.fixed fun _ _ => rfl
  refine ⟨clocked, fun id known => ?_, fun id known => ?_⟩
  · by_cases old : id < middle.builtFlows
    · rw [handled.fixed createdAt_update old, created]
      exact behind.created id (built ▸ old)
    · rw [(handled.begins old known).2.1]
      exact positive
  · by_cases old : id < middle.builtFlows
    · have before := behind.updated id (built ▸ old)
      rw [← ticked.updatedAt] at before
      rcases handled.updatedAt old with ⟨same, -⟩ | ⟨-, -, -, same, -⟩ <;> omega
    · have same := (handled.begins old known).1
      omega

theorem Behind.run (positive : ∀ input ∈ inputs, 0 < input.p.tvSec)
    (reached : ((ModFlow.new evIpv4 evIpv6).run inputs).result = some this) : this.Behind := by
  refine (run_induction (Kept.new evIpv4 evIpv6)
    (fun inputs _ this => (∀ input ∈ inputs, 0 < input.p.tvSec) → this.Behind)
    (fun _ => ⟨Clocked.new evIpv4 evIpv6, nofun, nofun⟩) (fun inputs input events this middle
      handling after kept ticked handled earlier positive => ?_) reached).2 positive
  exact (earlier fun other member => positive other (List.mem_append_left _ member)).step
    (positive input (List.mem_append_right _ List.mem_cons_self)) ticked handled

/-- A flow that is updated in order has the latest second of its packets. -/
theorem Handled.isGreatest {told : List FlowEvent} (kept : this.Kept)
    (greatest : ∀ id < this.builtFlows, IsGreatest (seconds id told) (this.flow id).updatedAt)
    (unborn : ∀ id, this.builtFlows ≤ id → packets id told = [])
    (ordered : InOrder this.evIpv4 this.evIpv6 this input) (ticked : Ticked input.p this middle)
    (handled : Handled input.dns input.eid input.p middle events after)
    (known : id < after.builtFlows) :
    IsGreatest (seconds id (told ++ (this.tickEvents input.p ++ events)))
      (after.flow id).updatedAt := by
  have built : middle.builtFlows = this.builtFlows := ticked.built
  unfold seconds
  rw [packets_append, packets_append, (silent_tickEvents input.p this id).1, List.nil_append]
  by_cases old : id < middle.builtFlows
  · have before := greatest id (built ▸ old)
    rcases handled.updatedAt old with ⟨same, none⟩ | ⟨ip, ⟨slot, live⟩, same, now, one⟩
    · rw [none, List.append_nil, same, ticked.updatedAt]
      exact before
    · obtain ⟨slot', live'⟩ := ticked.of_live kept live
      rw [ticked.evIpv4, ticked.evIpv6] at ip
      have later := ordered ip id slot' live' (ticked.flowKey id ▸ same)
      rw [one, now]
      refine ⟨⟨input.p, List.mem_append_right _ List.mem_cons_self, rfl⟩, ?_⟩
      rintro second ⟨p, member, rfl⟩
      rcases List.mem_append.mp member with earlier | here
      · exact (before.2 ⟨p, earlier, rfl⟩).trans later
      · rw [List.mem_singleton.mp here]
  · obtain ⟨now, -, one⟩ := handled.begins old known
    rw [unborn id (built ▸ Nat.not_lt.mp old), one, now, List.nil_append]
    refine ⟨⟨input.p, List.mem_cons_self, rfl⟩, ?_⟩
    rintro second ⟨p, member, rfl⟩
    rw [List.mem_singleton.mp member]

/-- **While packets come in order**, every flow shows the latest second of its packets. -/
theorem isGreatest_run (ordered : ∀ calls input, calls ++ [input] <+: inputs → ∀ this,
      ((ModFlow.new evIpv4 evIpv6).run calls).result = some this →
        InOrder evIpv4 evIpv6 this input)
    (reached : ((ModFlow.new evIpv4 evIpv6).run inputs).result = some this) :
    ∀ id < this.builtFlows,
      IsGreatest (seconds id ((ModFlow.new evIpv4 evIpv6).run inputs).events)
        (this.flow id).updatedAt := by
  induction inputs using List.reverseRecOn generalizing this with
  | nil =>
      cases reached
      nofun
  | append_singleton inputs input ih =>
      obtain ⟨before, earlier, returned⟩ := Exec.run_snoc_result.mp reached
      have told := Exec.run_snoc_events input earlier
      change ((ModFlow.new evIpv4 evIpv6).run (inputs ++ [input])).events = _ at told
      obtain ⟨bound4, bound6⟩ := bound_run (Kept.new evIpv4 evIpv6) earlier
      have here := ordered inputs input (List.prefix_refl _) before earlier
      have kept := Kept.run earlier
      obtain ⟨-, middle, events, ticked, handled, same⟩ :=
        handled_of_recv kept returned
      rw [same] at told
      rw [told]
      intro id known
      refine handled.isGreatest kept (ih (fun calls input prior => ordered calls input
        (prior.trans (List.prefix_append _ _))) earlier) (fun id late => ?_) ?_ ticked known
      · exact ((Told.run earlier).unborn id late).1
      · rw [bound4, bound6]
        exact here

/-- Packets with a direction only begin flows with a direction. -/
theorem initDir_run (directed : ∀ input ∈ calls, input.p.dir ≠ .nil)
    (reached : ((ModFlow.new evIpv4 evIpv6).run calls).result = some this)
    (known : id < this.builtFlows) : (this.flow id).initDir ≠ .nil := by
  obtain ⟨call, built⟩ := exists_begun reached known
  rw [initDir_of_builtIn built reached]
  obtain ⟨front, back, -, -, rfl, -⟩ := built
  exact directed call (List.mem_append_right _ List.mem_cons_self)

/-- A call that returns logs the expired flows without time remaining. -/
theorem emitLog_of_due (kept : this.Kept) (returned : (this.recv dns eid p).result = some after)
    (due : id ∈ this.expired p) (overdue : ¬ 0 < (this.flow id).remain)
    (built : (this.flow id).buildMessage = some log) :
    .emitLog id (this.flow id).flowKey log ∈ (this.recv dns eid p).events := by
  obtain ⟨-, middle, events, -, -, same⟩ := handled_of_recv kept returned
  rw [same]
  refine List.mem_append_left _ (List.mem_flatMap.mpr ⟨id, due, ?_⟩)
  unfold turnEvents
  rw [if_neg overdue, built]
  exact List.mem_cons_self

/-- A packet that is older than the last update of its flow is counted all the same: it does
not move the clock. -/
theorem updatedAt_of_late (dns : ModDns) (kept : this.Kept) (behind : this.Behind)
    (ip : eid = this.evIpv4 ∨ eid = this.evIpv6) {slot : ℕ} (live : this.flowTable.Live id slot)
    (same : (this.flow id).flowKey = keyOf p) (late : p.tvSec < (this.flow id).updatedAt) :
    ∃ after, (this.recv dns eid p).result = some after ∧
      (after.flow id).updatedAt = p.tvSec := by
  have reached := behind.updated id (kept.wf.live_lt live)
  have none : this.expired p = [] := by
    unfold expired
    rw [if_neg]
    rintro ⟨-, later⟩
    omega
  rcases recv_spec dns eid p kept with ⟨⟨other, due, -⟩, -⟩ |
    ⟨-, middle, events, after, ticked, handled, returned⟩
  · rw [none] at due
    cases due
  refine ⟨after, congrArg Exec.result returned, ?_⟩
  rw [← ticked.evIpv4, ← ticked.evIpv6] at ip
  rw [← ticked.flowKey] at same
  have still : middle.flowTable.Live id slot := by
    rw [ticked.live, none]
    exact .inl ⟨live, List.not_mem_nil⟩
  exact handled.updates (ticked.kept kept) ip still same

theorem unsignedOfTime_of_lt {time : ℤ} (nonneg : 0 ≤ time) (small : time < 2 ^ 32) :
    Flow.unsignedOfTime time = time := Int.emod_eq_of_lt nonneg small

/-! ## When the times are right -/

/-- If no flow is moved back, every packet is counted in order. -/
theorem TimesOrdered.inOrder (times : TimesOrdered evIpv4 evIpv6 inputs)
    (positive : ∀ input ∈ inputs, 0 < input.p.tvSec) (prior : calls ++ [input] <+: inputs)
    (reached : ((ModFlow.new evIpv4 evIpv6).run calls).result = some this) :
    InOrder evIpv4 evIpv6 this input := by
  intro ip id slot live same
  have kept := Kept.run reached
  have behind : this.Behind := Behind.run
    (fun other member => positive other (((List.prefix_append _ _).trans prior).subset member))
    reached
  obtain ⟨bound4, bound6⟩ := bound_run (Kept.new evIpv4 evIpv6) reached
  by_contra late
  rw [← show this.evIpv4 = evIpv4 from bound4, ← show this.evIpv6 = evIpv6 from bound6] at ip
  obtain ⟨after, returned, now⟩ :=
    updatedAt_of_late input.dns kept behind ip live same (Int.not_le.mp late)
  have forwards := times.forwards calls input prior this reached after returned id
    (kept.wf.live_lt live)
  omega

/-- If the logged times are right, they fit 32 bits. -/
theorem TimesOrdered.lastFits (times : TimesOrdered evIpv4 evIpv6 inputs)
    (positive : ∀ input ∈ inputs, 0 < input.p.tvSec)
    (directed : ∀ input ∈ inputs, input.p.dir ≠ .nil) (prior : calls ++ [input] <+: inputs)
    (reached : ((ModFlow.new evIpv4 evIpv6).run calls).result = some this) :
    LastFits this input := by
  intro id due overdue
  have kept := Kept.run reached
  have before : calls <+: inputs := (List.prefix_append _ _).trans prior
  have known : ∀ id ∈ this.expired input.p, id < this.builtFlows := by
    intro id due
    obtain ⟨slot, live⟩ := expired_live kept due
    exact kept.wf.live_lt live
  have directed : ∀ id ∈ this.expired input.p, (this.flow id).initDir ≠ .nil := fun id due =>
    initDir_run (fun other member => directed other (before.subset member)) reached (known id due)
  obtain ⟨log, built⟩ := Option.ne_none_iff_exists'.mp
    (mt Flow.buildMessage_eq_none.mp (directed id due))
  obtain ⟨after, returned⟩ := recv_returns input.dns input.eid kept fun id due _ => directed id due
  obtain ⟨last, latest, shown⟩ := times.latest calls input prior this reached id _ log
    (emitLog_of_due kept returned due overdue built)
  have greatest := isGreatest_run (fun front input front' this reached =>
    times.inOrder positive (front'.trans before) reached) reached id (known id due)
  rw [(Flow.field_of_buildMessage built).2.2.2.2.1, latest.unique greatest] at shown
  injection shown with shown
  injection shown with shown
  unfold Flow.unsignedOfTime at shown
  omega

/-- What is known of a flow when it is logged after packets in order. -/
theorem times_of_emitLog (ordered : ∀ front input, front ++ [input] <+: calls → ∀ this,
      ((ModFlow.new evIpv4 evIpv6).run front).result = some this →
        InOrder evIpv4 evIpv6 this input)
    (fits : LastFits this input) (behind : this.Behind)
    (reached : ((ModFlow.new evIpv4 evIpv6).run calls).result = some this)
    (logged : .emitLog id key log ∈ (this.recv input.dns input.eid input.p).events) :
    IsGreatest (seconds id ((ModFlow.new evIpv4 evIpv6).run calls).events)
        (this.flow id).updatedAt ∧
      log.field "init_ts" = some (.int (this.flow id).createdAt) ∧
      log.field "last_ts" = some (.int (this.flow id).updatedAt) ∧
      (this.flow id).createdAt ≤ (this.flow id).updatedAt := by
  obtain ⟨due, overdue, -⟩ := due_of_emitLog (Kept.run reached) logged
  obtain ⟨built, first, rest, src, dst, story⟩ := story_of_emitLog reached logged
  obtain ⟨slot, live⟩ := expired_live (Kept.run reached) due
  have known := (Kept.run reached).wf.live_lt live
  have greatest := isGreatest_run ordered reached id known
  have created : (this.flow id).createdAt = first.tvSec :=
    story.fixed Flow.createdAt createdAt_update fun _ _ => rfl
  have spans : (this.flow id).createdAt ≤ (this.flow id).updatedAt := by
    refine greatest.2 ⟨first, ?_, created.symm⟩
    rw [story.counted]
    exact List.mem_cons_self
  have positive := behind.created id known
  have small := fits id due overdue
  obtain ⟨-, -, -, init, last, -⟩ := Flow.field_of_buildMessage built
  rw [unsignedOfTime_of_lt (by omega) (by omega)] at init last
  exact ⟨greatest, init, last, spans⟩

/-- A packet in order moves no flow back. -/
theorem InOrder.updatedAt_le (ordered : InOrder this.evIpv4 this.evIpv6 this input)
    (kept : this.Kept) (returned : (this.recv input.dns input.eid input.p).result = some after)
    (known : id < this.builtFlows) : (this.flow id).updatedAt ≤ (after.flow id).updatedAt := by
  obtain ⟨-, middle, events, ticked, handled, -⟩ :=
    handled_of_recv kept returned
  have built : middle.builtFlows = this.builtFlows := ticked.built
  rcases handled.updatedAt (built ▸ known) with ⟨rest, -⟩ | ⟨ip, ⟨slot, live⟩, own, now, -⟩
  · rw [rest, ticked.updatedAt]
  · obtain ⟨slot', live'⟩ := ticked.of_live kept live
    rw [ticked.evIpv4, ticked.evIpv6] at ip
    rw [now]
    exact ordered ip id slot' live' (ticked.flowKey id ▸ own)

/-- **When the times of flows are right under reordering.** For packets with a direction and
positive timestamps in any order, every logged flow shows the latest second of its
packets, and none is moved back, if and only if no packet is older than the last update of
the live flow it belongs to, and the seconds of the logged flows fit 32 bits. -/
theorem times_ordered_iff (evIpv4 evIpv6 : EvId) (inputs : List Input)
    (positive : ∀ input ∈ inputs, 0 < input.p.tvSec)
    (directed : ∀ input ∈ inputs, input.p.dir ≠ .nil) : TimesOrdered evIpv4 evIpv6 inputs ↔
      ∀ calls input, calls ++ [input] <+: inputs → ∀ this,
        ((ModFlow.new evIpv4 evIpv6).run calls).result = some this →
          InOrder evIpv4 evIpv6 this input ∧ LastFits this input := by
  constructor
  · intro times calls input prior this reached
    exact ⟨times.inOrder positive prior reached, times.lastFits positive directed prior reached⟩
  · intro right
    have logged : ∀ calls input, calls ++ [input] <+: inputs → ∀ this,
        ((ModFlow.new evIpv4 evIpv6).run calls).result = some this → ∀ id key log,
          .emitLog id key log ∈ (this.recv input.dns input.eid input.p).events →
            IsGreatest (seconds id ((ModFlow.new evIpv4 evIpv6).run calls).events)
                (this.flow id).updatedAt ∧
              log.field "init_ts" = some (.int (this.flow id).createdAt) ∧
              log.field "last_ts" = some (.int (this.flow id).updatedAt) ∧
              (this.flow id).createdAt ≤ (this.flow id).updatedAt := by
      intro calls input prior this reached id key log
      have before : calls <+: inputs := (List.prefix_append calls [input]).trans prior
      exact times_of_emitLog (fun front other front' state arrived =>
        (right front other (front'.trans before) state arrived).1)
        (right calls input prior this reached).2
        (Behind.run (fun other member => positive other (before.subset member)) reached) reached
    refine ⟨fun calls input prior this reached id key log here => ?_,
      fun calls input prior this reached id key log here => ?_,
      fun calls input prior this reached after returned id known => ?_⟩
    · obtain ⟨greatest, -, last, -⟩ := logged calls input prior this reached id key log here
      exact ⟨_, greatest, last⟩
    · obtain ⟨-, init, last, spans⟩ := logged calls input prior this reached id key log here
      exact ⟨_, _, init, last, spans⟩
    · obtain ⟨bound4, bound6⟩ : this.evIpv4 = evIpv4 ∧ this.evIpv6 = evIpv6 :=
        bound_run (Kept.new evIpv4 evIpv6) reached
      have ordered := (right calls input prior this reached).1
      rw [← bound4, ← bound6] at ordered
      exact ordered.updatedAt_le (Kept.run reached) returned known

/-- Two packets of a flow, the second of them five seconds older than the first. -/
def swapped : List Input := [.sample 10 1, .sample 5 1]

/-- **The flow is logged as if it had ended before it began.** -/
theorem swapped_not_ordered :
    (∀ input ∈ swapped ++ [.sample 700 2], 0 < input.p.tvSec) ∧
    (∀ input ∈ swapped ++ [.sample 700 2], input.p.dir ≠ .nil) ∧
    ¬ TimesOrdered 4 6 (swapped ++ [.sample 700 2]) ∧
    ∃ this key log, ((ModFlow.new 4 6).run swapped).result = some this ∧
      .emitLog 0 key log ∈ (this.recv ModDns.new 4 (Property.sample 700 2)).events ∧
      log.field "init_ts" = some (.int 10) ∧ log.field "last_ts" = some (.int 5) := by
  obtain ⟨this, key, log, reached, logged⟩ :=
    exists_emitLog (ModFlow.new 4 6) swapped (.sample 700 2) 0 (by decide +kernel)
  have built := (due_of_emitLog (Kept.run reached) logged).2.2
  have computed : ((ModFlow.new 4 6).run swapped).result.map (fun this =>
      (this.flow 0).buildMessage.map fun log => (log.field "init_ts", log.field "last_ts")) =
        some (some (some (.int 10), some (.int 5))) := by
    decide +kernel
  rw [reached, Option.map_some, built, Option.map_some] at computed
  obtain ⟨init, last⟩ := Prod.mk.inj (Option.some.inj (Option.some.inj computed))
  refine ⟨by decide +kernel, by decide +kernel, fun times => ?_, this, key, log, reached, logged,
    init, last⟩
  obtain ⟨first, final, spans⟩ := times.spans swapped (.sample 700 2) (List.prefix_refl _) this
    reached 0 key log logged
  rw [init, last] at spans
  obtain ⟨begins, ends, backwards⟩ := spans
  cases begins
  cases ends
  exact absurd backwards (by decide)

/-- The packets of two flows cross, and the last of the second flow is late; ten minutes later
there are two packets of a third. -/
def crossing : List Input :=
  [.sample 1 1, .sample 2 2, .sample 5 1, .sample 3 2, .sample 700 3, .sample 710 3]

/-- The late packet belongs to a flow without later packets, and both flows are logged. -/
theorem times_ordered_iff_sample : TimesOrdered 4 6 crossing ∧
    logs 0 ((ModFlow.new 4 6).run crossing).events = 1 ∧
    logs 1 ((ModFlow.new 4 6).run crossing).events = 1 := by
  have right : Exec.Along (fun this input => this.recv input.dns input.eid input.p)
      (fun this input => InOrder 4 6 this input ∧ LastFits this input) (ModFlow.new 4 6)
      crossing := by
    decide +kernel
  refine ⟨?_, by decide +kernel, by decide +kernel⟩
  exact (times_ordered_iff 4 6 crossing (by decide +kernel) (by decide +kernel)).mpr
    (Exec.along_iff.mp right)

end ModFlow

end Devourer
