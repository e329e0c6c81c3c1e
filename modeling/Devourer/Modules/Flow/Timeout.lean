import Devourer.Modules.Flow.Timely
import Mathlib.Data.List.Chain

/-! # When a flow is evicted

A flow should be logged when it has been quiet for `flow_timeout_` seconds. The
time remaining that an expired flow is put again for is counted from its last
refresh, so that a flow can be put again for too short a time and evicted early
(`earlyFlow_cut`). In a run of timely calls no flow is evicted early and no
conversation is cut (`timeout_of_timely`).
-/

namespace Devourer

namespace ModFlow

/-- The last packet counted in the flow. -/
def LastCounted (id : ℕ) (p : Property) (events : List FlowEvent) : Prop :=
  ∃ older newer, events = older ++ .counted id p :: newer ∧ ∀ q, .counted id q ∉ newer

/-- The event is a `flow.new` with the key. -/
def isNew (key : FlowKey) : FlowEvent → Bool
  | .emitNew _ other _ => other = key
  | _ => false

/-- How often a flow with the key was reported as new. -/
def news (key : FlowKey) (events : List FlowEvent) : ℕ := events.countP (isNew key)

/-- Successive packets with the key are never more than the timeout apart. -/
def Close (evIpv4 evIpv6 : EvId) (key : FlowKey) (inputs : List Input) : Prop :=
  ∀ front first between second back, inputs = front ++ first :: (between ++ second :: back) →
    Belongs evIpv4 evIpv6 key first → Belongs evIpv4 evIpv6 key second →
    (∀ other ∈ between, ¬ Belongs evIpv4 evIpv6 key other) →
    second.p.tvSec ≤ first.p.tvSec + flowTimeout

/-! ## What is last counted in a flow -/

theorem LastCounted.append {id : ℕ} {p : Property} {events more : List FlowEvent}
    (last : LastCounted id p events) (other : ∀ q, .counted id q ∉ more) :
    LastCounted id p (events ++ more) := by
  obtain ⟨older, newer, rfl, quiet⟩ := last
  refine ⟨older, newer ++ more, by rw [List.append_assoc, List.cons_append], fun q member => ?_⟩
  rcases List.mem_append.mp member with here | there
  · exact quiet q here
  · exact other q there

theorem lastCounted_snoc (id : ℕ) (p : Property) (events : List FlowEvent) :
    LastCounted id p (events ++ [.counted id p]) := ⟨events, [], rfl, fun _ => nofun⟩

theorem counted_not_mem_tickEvents {p : Property} {this : ModFlow} {id : ℕ} (q : Property) :
    .counted id q ∉ this.tickEvents p := by
  intro member
  obtain ⟨other, -, ⟨-, ttl, taken, told⟩ | ⟨-, msg, -, told⟩⟩ := tickEvents_cases member
  · cases told
  · cases told

/-- Every flow was counted in, the last time when it was last updated. -/
def Dated (events : List FlowEvent) (this : ModFlow) : Prop :=
  ∀ id < this.flowTable.built,
    ∃ p, LastCounted id p events ∧ (this.flow id).updatedAt = p.tvSec

theorem Dated.step {events handling : List FlowEvent} {this middle after : ModFlow}
    {dns : ModDns} {eid : EvId} {p : Property} (dated : Dated events this)
    (ticked : Ticked p this middle) (handled : Handled dns eid p middle handling after) :
    Dated (events ++ (this.tickEvents p ++ handling)) after := by
  have ticking : Dated (events ++ this.tickEvents p) middle := by
    intro id known
    rw [ticked.built] at known
    obtain ⟨q, last, same⟩ := dated id known
    refine ⟨q, last.append counted_not_mem_tickEvents, ?_⟩
    rw [ticked.updatedAt, same]
  rw [← List.append_assoc]
  cases handled with
  | skipped =>
      rw [List.append_nil]
      exact ticking
  | known id slot ip live same =>
      intro other known
      rw [counted_flow]
      by_cases self : other = id
      · rw [if_pos self, Flow.updatedAt_update, self]
        exact ⟨p, lastCounted_snoc id p _, rfl⟩
      · obtain ⟨q, last, dated⟩ := ticking other known
        rw [if_neg self]
        exact ⟨q, last.append (by simp [self]), dated⟩
  | fresh src dst ip srcIs dstIs unknown =>
      intro other known
      rw [counted_flow]
      by_cases self : other = middle.flowTable.built
      · rw [if_pos self, Flow.updatedAt_update, self]
        have last := lastCounted_snoc middle.flowTable.built p (events ++ this.tickEvents p ++
          [.emitNew middle.flowTable.built (keyOf p) (newMessage p (Flow.new p src dst) src dst),
            .put middle.flowTable.built 600 true])
        rw [List.append_assoc] at last
        exact ⟨p, last, rfl⟩
      · have earlier : other < middle.flowTable.built :=
          Nat.lt_of_le_of_ne (Nat.le_of_lt_succ known) self
        obtain ⟨q, last, dated⟩ := ticking other earlier
        rw [if_neg self, added_flow_of_lt earlier]
        exact ⟨q, last.append (by simp [self]), dated⟩

/-! ## Conversations -/

theorem news_tickEvents (key : FlowKey) (p : Property) (this : ModFlow) :
    news key (this.tickEvents p) = 0 := by
  apply List.countP_eq_zero.mpr
  intro event member told
  obtain ⟨id, -, ⟨-, ttl, taken, rfl⟩ | ⟨-, msg, -, rfl⟩⟩ := tickEvents_cases member <;> cases told

theorem news_append (key : FlowKey) (first second : List FlowEvent) :
    news key (first ++ second) = news key first + news key second := List.countP_append ..

theorem Close.of_prefix {evIpv4 evIpv6 : EvId} {key : FlowKey} {calls inputs : List Input}
    (close : Close evIpv4 evIpv6 key inputs) (front : calls <+: inputs) :
    Close evIpv4 evIpv6 key calls := by
  obtain ⟨rest, rfl⟩ := front
  rintro before first between second back rfl
  exact close before first between second (back ++ rest) (by simp)

/-- No packet with the key has been seen yet, or one flow was reported for it,
which either holds the last packet with the key or was evicted more than the
timeout after it. -/
def Uncut (evIpv4 evIpv6 : EvId) (key : FlowKey) (inputs : List Input) (events : List FlowEvent)
    (this : ModFlow) : Prop :=
  (news key events = 0 ∧ ∀ id slot, this.flowTable.Live id slot → (this.flow id).flowKey ≠ key) ∨
    news key events = 1 ∧ ∃ front last back, inputs = front ++ last :: back ∧
      Belongs evIpv4 evIpv6 key last ∧ (∀ other ∈ back, ¬ Belongs evIpv4 evIpv6 key other) ∧
      ((∃ id until_, this.Until id until_ ∧ (this.flow id).flowKey = key ∧
          (this.flow id).updatedAt = last.p.tvSec) ∨
        last.p.tvSec + flowTimeout < this.lastTs)

/-- A tick leaves the flow of a conversation alone unless the timeout is over. -/
theorem held_or_over {this middle : ModFlow} {p : Property} (kept : this.Kept)
    (clocked : this.Clocked) (punctual : this.Punctual) (positive : 0 < p.tvSec)
    (covered : this.Covered) (ticked : Ticked p this middle) (now : middle.lastTs = p.tvSec)
    {id : ℕ} {until_ : ℤ} (held : this.Until id until_) :
    (∃ later, middle.Until id later) ∨
      (this.flow id).updatedAt + flowTimeout < middle.lastTs := by
  by_cases waiting : p.tvSec ≤ until_
  · exact .inl ⟨until_, (ticked.until_iff kept clocked positive).mpr (.inl ⟨held, waiting⟩)⟩
  have overdue : until_ < p.tvSec := Int.not_le.mp waiting
  by_cases remains : 0 < (this.flow id).remain
  · have due := (mem_expired_iff kept clocked).mpr ⟨until_, overdue, held⟩
    have small : (this.flow id).remain < 3600 :=
      Int.lt_of_le_of_lt (punctual.remain_le held) (by decide)
    exact .inl ⟨_, (ticked.until_iff kept clocked positive).mpr (.inr ⟨due, remains, small, rfl⟩)⟩
  · have enough := covered id until_ held remains
    exact .inr (by omega)

/-- No live flow has the key. -/
def Unseen (key : FlowKey) (this : ModFlow) : Prop :=
  ∀ id slot, this.flowTable.Live id slot → (this.flow id).flowKey ≠ key

/-- The last packet with the key is held by a flow, or more than the timeout ago. -/
def Followed (key : FlowKey) (last : Property) (this : ModFlow) : Prop :=
  (∃ id until_, this.Until id until_ ∧ (this.flow id).flowKey = key ∧
    (this.flow id).updatedAt = last.tvSec) ∨ last.tvSec + flowTimeout < this.lastTs

section Calls

variable {key : FlowKey} {last : Property} {input : Input} {handling : List FlowEvent}
  {this middle after : ModFlow}

theorem Ticked.unseen (ticked : Ticked input.p this middle) (kept : this.Kept)
    (unseen : this.Unseen key) : middle.Unseen key := by
  intro id slot live
  obtain ⟨slot', before⟩ := ticked.of_live kept live
  rw [ticked.flowKey]
  exact unseen id slot' before

theorem Ticked.followed (ticked : Ticked input.p this middle) (kept : this.Kept)
    (clocked : this.Clocked) (punctual : this.Punctual) (positive : 0 < input.p.tvSec)
    (covered : this.Covered) (now : middle.lastTs = input.p.tvSec)
    (forward : this.lastTs ≤ input.p.tvSec) (followed : this.Followed key last) :
    middle.Followed key last := by
  rcases followed with ⟨id, until_, held, keyIs, dated⟩ | overdue
  · rcases held_or_over kept clocked punctual positive covered ticked now held with
      ⟨later, stays⟩ | overdue
    · refine .inl ⟨id, later, stays, (ticked.flowKey id).trans keyIs, ?_⟩
      rw [← dated, ticked.updatedAt]
    · exact .inr (dated ▸ overdue)
  · exact .inr (by omega)

/-- The first packet with the key starts the one flow to follow. -/
theorem Handled.first (handled : Handled input.dns input.eid input.p middle handling after)
    (kept : middle.Kept) (clocked : middle.Clocked) (unseen : middle.Unseen key) :
    news key handling = 0 ∧ after.Unseen key ∨
      news key handling = 1 ∧ Belongs middle.evIpv4 middle.evIpv6 key input ∧
        after.Followed key input.p := by
  cases handled with
  | skipped => exact .inl ⟨rfl, unseen⟩
  | known id =>
      refine .inl ⟨rfl, fun other slot live => ?_⟩
      rw [counted_flowKey]
      exact unseen other slot live
  | fresh src dst ip srcIs dstIs unknown =>
      by_cases mine : keyOf input.p = key
      · refine .inr ⟨by simp [news, isNew, mine], ⟨ip, mine⟩, .inl
          ⟨middle.flowTable.built, middle.lastTs + 600, ?_, ?_, ?_⟩⟩
        · exact (added_until kept clocked _).mpr (.inr ⟨rfl, rfl⟩)
        · rw [counted_flowKey, added_flow_self]
          exact mine
        · rw [counted_flow, if_pos rfl, Flow.updatedAt_update]
      · refine .inl ⟨by simp [news, isNew, mine], fun id slot live => ?_⟩
        rw [counted_flowKey]
        rcases (added_live kept.size _ id slot).mp live with before | ⟨rfl, -⟩
        · rw [added_flow_of_lt (kept.wf.live_lt before)]
          exact unseen id slot before
        · rw [added_flow_self]
          exact mine

/-- A packet with the key is counted in the flow that holds the last one. -/
theorem Handled.again (handled : Handled input.dns input.eid input.p middle handling after)
    (kept : middle.Kept) (clocked : middle.Clocked)
    (mine : Belongs middle.evIpv4 middle.evIpv6 key input) {id : ℕ} {until_ : ℤ}
    (held : middle.Until id until_) (keyIs : (middle.flow id).flowKey = key) :
    news key handling = 0 ∧ after.Followed key input.p := by
  have noNew : news key handling = 0 := by
    cases handled with
    | skipped => rfl
    | known => rfl
    | fresh src dst ip srcIs dstIs unknown =>
        obtain ⟨slot, live, -⟩ := held
        exact (unknown id slot live (keyIs.trans mine.2.symm)).elim
  obtain ⟨stays, same⟩ := handled.held kept clocked held
  rw [keyIs, if_pos mine] at same
  refine ⟨noNew, .inl ⟨id, until_, stays, ?_, ?_⟩⟩
  · rw [same, Flow.flowKey_update, keyIs]
  · rw [same, Flow.updatedAt_update]

/-- A packet that does not belong to the key leaves its flow alone. -/
theorem Handled.other (handled : Handled input.dns input.eid input.p middle handling after)
    (kept : middle.Kept) (clocked : middle.Clocked)
    (foreign : ¬ Belongs middle.evIpv4 middle.evIpv6 key input)
    (followed : middle.Followed key last) :
    news key handling = 0 ∧ after.Followed key last := by
  have noNew : news key handling = 0 := by
    cases handled with
    | skipped => rfl
    | known => rfl
    | fresh src dst ip srcIs dstIs unknown =>
        have notMine : keyOf input.p ≠ key := fun mine => foreign ⟨ip, mine⟩
        simp [news, isNew, notMine]
  refine ⟨noNew, ?_⟩
  rcases followed with ⟨id, until_, held, keyIs, dated⟩ | overdue
  · obtain ⟨stays, same⟩ := handled.held kept clocked held
    rw [keyIs, if_neg foreign] at same
    exact .inl ⟨id, until_, stays, same ▸ keyIs, same ▸ dated⟩
  · exact .inr (handled.lastTs ▸ overdue)

/-- **One call does not cut a conversation.** -/
theorem Uncut.step {evIpv4 evIpv6 : EvId} {inputs : List Input} {events : List FlowEvent}
    (uncut : Uncut evIpv4 evIpv6 key inputs events this) (steady : Steady inputs this)
    (sorted : Sorted (inputs ++ [input])) (positive : 0 < input.p.tvSec)
    (bound : this.evIpv4 = evIpv4 ∧ this.evIpv6 = evIpv6)
    (close : Close evIpv4 evIpv6 key (inputs ++ [input])) (covered : this.Covered)
    (ticked : Ticked input.p this middle)
    (handled : Handled input.dns input.eid input.p middle handling after) :
    Uncut evIpv4 evIpv6 key (inputs ++ [input])
      (events ++ (this.tickEvents input.p ++ handling)) after := by
  have kept := ticked.kept steady.kept
  obtain ⟨-, now, clocked, -⟩ := steady.step sorted positive ticked handled
  obtain ⟨rfl, rfl⟩ := bound
  rw [← ticked.evIpv4, ← ticked.evIpv6] at uncut close ⊢
  have count : news key (events ++ (this.tickEvents input.p ++ handling)) =
      news key events + news key handling := by
    rw [news_append, news_append, news_tickEvents, Nat.zero_add]
  unfold Uncut
  rw [count]
  rcases uncut with ⟨none, unseen⟩ | ⟨one, front, last, back, rfl, isLast, quiet, state⟩
  · -- no flow of the key was reported yet
    rcases handled.first kept clocked (ticked.unseen steady.kept unseen) with
      ⟨noNew, still⟩ | ⟨oneNew, mine, followed⟩
    · exact .inl ⟨by omega, still⟩
    · exact .inr ⟨by omega, inputs, input, [], rfl, mine, List.forall_mem_nil _, followed⟩
  · -- one flow was reported; follow it through the tick
    have followed : middle.Followed key last.p :=
      ticked.followed steady.kept steady.clocked steady.punctual positive covered now
        (steady.paced.forward sorted positive) state
    by_cases mine : Belongs middle.evIpv4 middle.evIpv6 key input
    · have near := close front last back input [] (by simp) isLast mine quiet
      rcases followed with ⟨id, until_, held, keyIs, -⟩ | overdue
      · obtain ⟨noNew, again⟩ := handled.again kept clocked mine held keyIs
        exact .inr ⟨by omega, front ++ last :: back, input, [], rfl, mine, List.forall_mem_nil _,
          again⟩
      · omega
    · obtain ⟨noNew, still⟩ := handled.other kept clocked mine followed
      refine .inr ⟨by omega, front, last, back ++ [input], by simp, isLast, ?_, still⟩
      intro other member
      rcases List.mem_append.mp member with earlier | here
      · exact quiet other earlier
      · rwa [List.mem_singleton.mp here]

end Calls

/-! ## Runs -/

theorem Steady.run {evIpv4 evIpv6 : EvId} {inputs : List Input} {this : ModFlow}
    (sorted : Sorted inputs) (positive : ∀ input ∈ inputs, 0 < input.p.tvSec)
    (reached : ((ModFlow.new evIpv4 evIpv6).run inputs).result = some this) :
    Steady inputs this := by
  refine (run_induction (Kept.new evIpv4 evIpv6) (fun inputs _ this => Sorted inputs →
    (∀ input ∈ inputs, 0 < input.p.tvSec) → Steady inputs this)
    (fun _ _ => Steady.new evIpv4 evIpv6) (fun inputs input _ _ _ _ _ _ ticked handled earlier
      sorted positive => ?_) reached).2 sorted positive
  have before := earlier (sorted.of_prefix (List.prefix_append _ _))
    fun other member => positive other (List.mem_append_left _ member)
  have now := positive input (List.mem_append_right _ List.mem_cons_self)
  exact (before.step sorted now ticked handled).2.2.2

theorem Dated.run {evIpv4 evIpv6 : EvId} {inputs : List Input} {this : ModFlow}
    (reached : ((ModFlow.new evIpv4 evIpv6).run inputs).result = some this) :
    Dated ((ModFlow.new evIpv4 evIpv6).run inputs).events this :=
  (run_induction (Kept.new evIpv4 evIpv6) (fun _ events this => Dated events this) (fun _ => nofun)
    (fun _ _ _ _ _ _ _ _ ticked handled dated => dated.step ticked handled) reached).2

/-- The run events of a call that aborts report no new flow. -/
theorem news_aborted {dns : ModDns} {eid : EvId} {p : Property} {this : ModFlow}
    (kept : this.Kept) (aborted : (this.recv dns eid p).result = none) (key : FlowKey) :
    news key (this.recv dns eid p).events = 0 := by
  apply List.countP_eq_zero.mpr
  rcases recv_spec dns eid p kept with ⟨-, -, told⟩ | ⟨-, middle, handling, after, -, -, same⟩
  · intro event member isNew
    obtain ⟨id, -, ⟨-, ttl, taken, rfl⟩ | ⟨-, msg, -, rfl⟩⟩ := tickEvents_cases (told event member)
    · cases isNew
    · cases isNew
  · rw [same] at aborted
    cases aborted

/-- **At most one flow is reported for a conversation**, and it is not cut. -/
theorem Uncut.run {evIpv4 evIpv6 : EvId} {key : FlowKey} {inputs : List Input}
    (sorted : Sorted inputs) (positive : ∀ input ∈ inputs, 0 < input.p.tvSec)
    (covered : ∀ calls, calls <+: inputs →
      ∀ this, ((ModFlow.new evIpv4 evIpv6).run calls).result = some this → this.Covered)
    (close : Close evIpv4 evIpv6 key inputs) :
    news key ((ModFlow.new evIpv4 evIpv6).run inputs).events ≤ 1 ∧
      ∀ this, ((ModFlow.new evIpv4 evIpv6).run inputs).result = some this →
        Uncut evIpv4 evIpv6 key inputs ((ModFlow.new evIpv4 evIpv6).run inputs).events this := by
  induction inputs using List.reverseRecOn with
  | nil =>
      refine ⟨Nat.zero_le 1, fun this reached => ?_⟩
      cases reached
      exact .inl ⟨rfl, fun _ _ => nofun⟩
  | append_singleton calls input ih =>
      have front : calls <+: calls ++ [input] := List.prefix_append _ _
      obtain ⟨few, uncut⟩ := ih (sorted.of_prefix front)
        (fun other member => positive other (front.subset member))
        (fun before shorter => covered before (shorter.trans front))
        (close.of_prefix front)
      have now := positive input (List.mem_append_right _ List.mem_cons_self)
      cases reached : ((ModFlow.new evIpv4 evIpv6).run calls).result with
      | none =>
          have stopped := Exec.run_snoc_of_abort input reached
          change (ModFlow.new evIpv4 evIpv6).run (calls ++ [input]) = _ at stopped
          rw [stopped]
          exact ⟨few, fun _ => nofun⟩
      | some this =>
          have steady := Steady.run (sorted.of_prefix front)
            (fun other member => positive other (front.subset member)) reached
          have events : ((ModFlow.new evIpv4 evIpv6).run (calls ++ [input])).events =
              _ ++ (this.recv input.dns input.eid input.p).events :=
            Exec.run_snoc_events input reached
          rw [events]
          rcases recv_spec input.dns input.eid input.p steady.kept with ⟨-, aborted, -⟩ |
            ⟨-, middle, handling, after, ticked, handled, same⟩
          · rw [news_append, news_aborted steady.kept aborted]
            refine ⟨few, fun next returned => ?_⟩
            obtain ⟨before, reached', stepped⟩ := Exec.run_snoc_result.mp returned
            cases reached.symm.trans reached'
            cases aborted.symm.trans stepped
          · have bound := bound_run (Kept.new evIpv4 evIpv6) reached
            have kept := (uncut this reached).step steady sorted now bound close
              (covered calls front this reached) ticked handled
            rw [same]
            refine ⟨?_, fun next returned => ?_⟩
            · rcases kept with ⟨none, -⟩ | ⟨one, -⟩
              · exact Nat.le_of_eq none |>.trans (Nat.zero_le 1)
              · exact Nat.le_of_eq one
            · obtain ⟨before, reached', stepped⟩ := Exec.run_snoc_result.mp returned
              cases reached.symm.trans reached'
              cases (congrArg Exec.result same).symm.trans stepped
              exact kept

/-- The calls of the run are timely. -/
def TimelyRun (evIpv4 evIpv6 : EvId) (inputs : List Input) : Prop :=
  ∀ calls input, calls ++ [input] <+: inputs →
    ∀ this, ((ModFlow.new evIpv4 evIpv6).run calls).result = some this → Timely input this

/-- It is enough to run the calls before each input. -/
theorem timelyRun_of_take {evIpv4 evIpv6 : EvId} {inputs : List Input}
    (check : ∀ count (short : count < inputs.length),
      ((ModFlow.new evIpv4 evIpv6).run (inputs.take count)).result.all
        (fun this => decide (Timely inputs[count] this)) = true) :
    TimelyRun evIpv4 evIpv6 inputs := by
  rintro calls input ⟨back, rfl⟩ this reached
  have taken : (calls ++ [input] ++ back).take calls.length = calls := by simp
  have checked := check calls.length (by simp)
  rw [taken, reached] at checked
  simpa using checked

/-- **Timely calls keep all flows for the timeout.** -/
theorem Covered.run {evIpv4 evIpv6 : EvId} {inputs : List Input} {this : ModFlow}
    (sorted : Sorted inputs) (positive : ∀ input ∈ inputs, 0 < input.p.tvSec)
    (timely : TimelyRun evIpv4 evIpv6 inputs)
    (reached : ((ModFlow.new evIpv4 evIpv6).run inputs).result = some this) : this.Covered := by
  induction inputs using List.reverseRecOn generalizing this with
  | nil =>
      cases reached
      rintro id until_ ⟨slot, live, -⟩
      cases live
  | append_singleton calls input ih =>
      obtain ⟨before, reached', stepped⟩ := Exec.run_snoc_result.mp reached
      have front : calls <+: calls ++ [input] := List.prefix_append _ _
      have earlier : ∀ other ∈ calls, 0 < other.p.tvSec :=
        fun other member => positive other (front.subset member)
      have steady := Steady.run (sorted.of_prefix front) earlier reached'
      have covered := ih (sorted.of_prefix front) earlier
        (fun calls' input' shorter => timely calls' input' (shorter.trans front)) reached'
      obtain ⟨-, middle, handling, ticked, handled, -⟩ := handled_of_recv steady.kept stepped
      exact (covered_iff_timely steady sorted
        (positive input (List.mem_append_right _ List.mem_cons_self)) covered ticked handled).mpr
          (timely calls input (List.prefix_refl _) before reached')

/-- **No flow is evicted early while every call is timely.** In a run of packets
with positive timestamps that do not step backwards, whose calls put a flow again
only a timeout after its last refresh and count no packet in the second of a
shorter put, a flow is logged only by a packet 600 seconds or more after the last
packet counted in the flow, and packets with one key that follow each other by at
most 600 seconds are never counted in two flows. -/
theorem timeout_of_timely (evIpv4 evIpv6 : EvId) (inputs : List Input) (sorted : Sorted inputs)
    (positive : ∀ input ∈ inputs, 0 < input.p.tvSec)
    (timely : TimelyRun evIpv4 evIpv6 inputs) :
    (∀ calls input, calls ++ [input] <+: inputs →
      ∀ this, ((ModFlow.new evIpv4 evIpv6).run calls).result = some this →
        ∀ id key msg, .emitLog id key msg ∈ (this.recv input.dns input.eid input.p).events →
          ∃ last, LastCounted id last ((ModFlow.new evIpv4 evIpv6).run calls).events ∧
            last.tvSec + flowTimeout ≤ input.p.tvSec) ∧
    ∀ key, Close evIpv4 evIpv6 key inputs →
      news key ((ModFlow.new evIpv4 evIpv6).run inputs).events ≤ 1 := by
  have covered : ∀ calls, calls <+: inputs → ∀ this,
      ((ModFlow.new evIpv4 evIpv6).run calls).result = some this → this.Covered :=
    fun calls front this => Covered.run (sorted.of_prefix front)
      (fun other member => positive other (front.subset member))
      (fun calls' input shorter => timely calls' input (shorter.trans front))
  refine ⟨fun calls input front this reached id key msg logged => ?_, fun key close => ?_⟩
  · have before : calls <+: inputs := (List.prefix_append _ _).trans front
    have inside : ∀ other ∈ calls, 0 < other.p.tvSec := fun other member =>
      positive other (before.subset member)
    have kept := Kept.run reached
    obtain ⟨due, overdue, -⟩ := due_of_emitLog kept logged
    obtain ⟨until_, passed, held⟩ := (mem_expired_iff kept (Clocked.run inside reached)).mp due
    obtain ⟨slot, live⟩ := expired_live kept due
    obtain ⟨last, isLast, dated⟩ := Dated.run reached id (kept.wf.live_lt live)
    have enough := covered calls before this reached id until_ held overdue
    exact ⟨last, isLast, by omega⟩
  · exact (Uncut.run sorted positive covered close).1

/-- The first flow is put again for one second, by a packet of another flow, and
logged when this second is over. -/
def timelyFlow : List Input := [.sample 1 1, .sample 2 1, .sample 602 2, .sample 604 2]

theorem timeout_of_timely_sample :
    (∀ calls input, calls ++ [input] <+: timelyFlow →
      ∀ this, ((ModFlow.new 4 6).run calls).result = some this →
        ∀ id key msg, .emitLog id key msg ∈ (this.recv input.dns input.eid input.p).events →
          ∃ last, LastCounted id last ((ModFlow.new 4 6).run calls).events ∧
            last.tvSec + flowTimeout ≤ input.p.tvSec) ∧
    ∀ key, Close 4 6 key timelyFlow → news key ((ModFlow.new 4 6).run timelyFlow).events ≤ 1 :=
  timeout_of_timely 4 6 timelyFlow (by decide) (by decide) (timelyRun_of_take (by decide +kernel))

/-- Four packets of one conversation. At the third, 600 seconds after the second,
the flow is put again for the one second between its first two packets. -/
def earlyFlow : List Input := [.sample 1 1, .sample 2 1, .sample 602 1, .sample 604 1]

theorem lastCounted_unique {id : ℕ} {p q : Property} {events : List FlowEvent}
    (last : LastCounted id p (events ++ [.counted id q])) : p = q := by
  obtain ⟨older, newer, same, quiet⟩ := last
  rcases Exec.snoc_cases same with ⟨-, final, -⟩ | ⟨between, rfl, -⟩
  · cases final
    rfl
  · exact (quiet q (by simp)).elim

/-- When all packets have the key, it is enough to look at neighbours. -/
theorem close_of_isChain {evIpv4 evIpv6 : EvId} {key : FlowKey} {inputs : List Input}
    (all : ∀ input ∈ inputs, Belongs evIpv4 evIpv6 key input)
    (chain : inputs.IsChain fun first second => second.p.tvSec ≤ first.p.tvSec + flowTimeout) :
    Close evIpv4 evIpv6 key inputs := by
  rintro front first between second back rfl - - quiet
  cases between with
  | nil => exact (List.isChain_append_cons_cons.mp chain).2.1
  | cons other rest => exact (quiet other List.mem_cons_self (all other (by simp))).elim

/-- The flow is logged two seconds after its last packet, and the conversation is
counted in two flows although its packets are at most 600 seconds apart. -/
theorem earlyFlow_cut : Sorted earlyFlow ∧ (∀ input ∈ earlyFlow, 0 < input.p.tvSec) ∧
    (∃ calls input this id key msg, earlyFlow = calls ++ [input] ∧
      ((ModFlow.new 4 6).run calls).result = some this ∧
      .emitLog id key msg ∈ (this.recv input.dns input.eid input.p).events ∧
      ∀ last, LastCounted id last ((ModFlow.new 4 6).run calls).events →
        last.tvSec + 2 = input.p.tvSec) ∧
    Close 4 6 ⟨1, []⟩ earlyFlow ∧ news ⟨1, []⟩ ((ModFlow.new 4 6).run earlyFlow).events = 2 := by
  have belongs : ∀ input ∈ earlyFlow, Belongs 4 6 ⟨1, []⟩ input := by
    have keys : ∀ input ∈ earlyFlow, input.eid = 4 ∧ keyOf input.p = ⟨1, []⟩ := by decide
    exact fun input member => ⟨.inl (keys input member).1, (keys input member).2⟩
  refine ⟨by decide, by decide, ?_, close_of_isChain belongs (by decide), by decide +kernel⟩
  have stepped : ((ModFlow.new 4 6).run (earlyFlow.take 3)).result.map (fun this =>
      (this.recv ModDns.new 4 (Property.sample 604 1)).events.any (isLog 0)) = some true := by
    decide +kernel
  obtain ⟨this, reached, logged⟩ := Option.map_eq_some_iff.mp stepped
  obtain ⟨event, member, isLogged⟩ := List.any_eq_true.mp logged
  cases event with
  | emitLog id key msg =>
      obtain rfl : id = 0 := of_decide_eq_true isLogged
      refine ⟨earlyFlow.take 3, .sample 604 1, this, 0, key, msg, rfl, reached, member,
        fun last isLast => ?_⟩
      have final : ((ModFlow.new 4 6).run (earlyFlow.take 3)).events.getLast? =
          some (.counted 0 (Property.sample 602 1)) := by
        decide +kernel
      obtain ⟨older, events⟩ := List.getLast?_eq_some_iff.mp final
      rw [events] at isLast
      rw [lastCounted_unique isLast]
      rfl
  | emitNew id key msg => cases isLogged
  | put id ttl taken => cases isLogged
  | counted id p => cases isLogged

end ModFlow

end Devourer
