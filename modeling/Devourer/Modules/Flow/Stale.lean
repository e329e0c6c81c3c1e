import Devourer.Modules.Flow.Conservation
import Devourer.Modules.Flow.Timeout

/-! # Packets that come after the timeout

A packet that comes more than the timeout after the last one of its session should
find the old flow logged and start a new one. The eviction loop decides by the
times stored in the flow and not by the clock, so a flow that was updated after its
last refresh is put again, and then continued, however old it is; and a flow that
was put again late still waits. `renewed_iff_spent` says when neither happens.
-/

namespace Devourer

namespace ModFlow

/-- The input is an IP packet with the session label. -/
def Labelled (evIpv4 evIpv6 : EvId) (label : Bytes) (input : Input) : Prop :=
  (input.eid = evIpv4 ∨ input.eid = evIpv6) ∧ input.p.ssnLabel = label

/-- The session of the packet was last seen more than the timeout and one second
before it. -/
def Stale (evIpv4 evIpv6 : EvId) (calls : List Input) (p : Property) : Prop :=
  ∃ front last back, calls = front ++ last :: back ∧ Labelled evIpv4 evIpv6 p.ssnLabel last ∧
    (∀ other ∈ back, ¬ Labelled evIpv4 evIpv6 p.ssnLabel other) ∧
    last.p.tvSec + flowTimeout + 1 < p.tvSec

/-- By the end of the call the earlier flows of the session have been logged, and the
packet is counted in a flow of its own, reported as new. -/
structure Renewed (p : Property) (earlier : List FlowEvent) (this : ModFlow)
    (call : Exec FlowEvent ModFlow) : Prop where
  returns : call.result.isSome
  logged : ∀ id < this.flowTable.built, (this.flow id).key = p.ssnLabel →
    logs id (earlier ++ call.events) = 1
  opened : ∃ msg, .emitNew this.flowTable.built (keyOf p) msg ∈ call.events
  counted : ∀ id q, .counted id q ∈ call.events ↔ id = this.flowTable.built ∧ q = p

/-- **The condition for a stale packet.** A flow of the session that is still held was
not updated after its last refresh; if it was put again after its last update, this
time has run out, too. And no flow that the call has to log lacks a direction. -/
structure Spent (p : Property) (this : ModFlow) : Prop where
  session : ∀ id until_, this.Until id until_ → (this.flow id).key = p.ssnLabel →
    (this.flow id).updatedAt ≤ (this.flow id).refreshedAt ∧
      ((this.flow id).updatedAt < (this.flow id).refreshedAt → until_ < p.tvSec)
  directed : ∀ id until_, this.Until id until_ → until_ < p.tvSec →
    (this.flow id).updatedAt ≤ (this.flow id).refreshedAt → (this.flow id).initDir ≠ .nil

/-! ## Flows and the packets that updated them -/

/-- Every flow was last updated by an IP packet with its key. -/
def Seen (evIpv4 evIpv6 : EvId) (calls : List Input) (this : ModFlow) : Prop :=
  ∀ id < this.flowTable.built, ∃ input ∈ calls,
    Belongs evIpv4 evIpv6 (this.flow id).flowKey input ∧
      input.p.tvSec = (this.flow id).updatedAt

variable {calls : List Input} {input : Input} {this middle after : ModFlow}

theorem Seen.step {handling : List FlowEvent} (seen : Seen this.evIpv4 this.evIpv6 calls this)
    (ticked : Ticked input.p this middle)
    (handled : Handled input.dns input.eid input.p middle handling after) :
    Seen this.evIpv4 this.evIpv6 (calls ++ [input]) after := by
  have between : Seen middle.evIpv4 middle.evIpv6 (calls ++ [input]) middle := by
    intro id known
    rw [ticked.built] at known
    obtain ⟨other, member, mine, dated⟩ := seen id known
    refine ⟨other, List.mem_append_left _ member, ?_, ?_⟩
    · rwa [ticked.evIpv4, ticked.evIpv6, ticked.flowKey]
    · rw [dated, ticked.updatedAt]
  -- the packet counted last is the one that updated the flow
  have count : ∀ {state : ModFlow} (id : ℕ), (state.flow id).flowKey = keyOf input.p →
      (input.eid = middle.evIpv4 ∨ input.eid = middle.evIpv6) →
      (∀ other < state.flowTable.built, other ≠ id → ∃ source ∈ calls ++ [input],
        Belongs middle.evIpv4 middle.evIpv6 (state.flow other).flowKey source ∧
          source.p.tvSec = (state.flow other).updatedAt) →
      Seen middle.evIpv4 middle.evIpv6 (calls ++ [input]) (state.counted input.p id) := by
    intro state id same ip others other known
    rw [counted_flowKey, counted_flow]
    by_cases self : other = id
    · rw [if_pos self, Flow.updatedAt_update, self, same]
      exact ⟨input, List.mem_append_right _ List.mem_cons_self, ⟨ip, rfl⟩, rfl⟩
    · rw [if_neg self]
      exact others other known self
  rw [← ticked.evIpv4, ← ticked.evIpv6]
  cases handled with
  | skipped => exact between
  | known id slot ip live same => exact count id same ip fun other known _ => between other known
  | fresh src dst ip =>
      refine count _ (by rw [added_flow_self]; rfl) ip fun other known different => ?_
      have earlier : other < middle.flowTable.built :=
        Nat.lt_of_le_of_ne (Nat.le_of_lt_succ known) different
      rw [added_flow_of_lt earlier]
      exact between other earlier

theorem Seen.run {evIpv4 evIpv6 : EvId}
    (reached : ((ModFlow.new evIpv4 evIpv6).run calls).result = some this) :
    Seen evIpv4 evIpv6 calls this := by
  have bound : ∀ {inputs state}, ((ModFlow.new evIpv4 evIpv6).run inputs).result = some state →
      state.evIpv4 = evIpv4 ∧ state.evIpv6 = evIpv6 := bound_run (Kept.new evIpv4 evIpv6)
  have seen : Seen this.evIpv4 this.evIpv6 calls this :=
    (run_induction (Kept.new evIpv4 evIpv6) (fun inputs _ state =>
      Seen state.evIpv4 state.evIpv6 inputs state) (fun _ => nofun)
      (fun inputs input events state middle handling after kept ticked handled seen => by
        have next := seen.step ticked handled
        have same : after.evIpv4 = state.evIpv4 ∧ after.evIpv6 = state.evIpv6 := by
          rw [← ticked.evIpv4, ← ticked.evIpv6]
          cases handled <;> exact ⟨rfl, rfl⟩
        rwa [same.1, same.2]) reached).2
  obtain ⟨four, six⟩ := bound reached
  rwa [four, six] at seen

/-! ## Flows and their logs -/

/-- Every flow built so far is live or was logged once. -/
structure Accounted (events : List FlowEvent) (this : ModFlow) : Prop where
  held : ∀ id < this.flowTable.built, Once id events this
  unborn : ∀ id, this.flowTable.built ≤ id → logs id events = 0

theorem Accounted.handle {dns : ModDns} {eid : EvId} {p : Property}
    {events handling : List FlowEvent} (accounted : Accounted events middle) (kept : middle.Kept)
    (handled : Handled dns eid p middle handling after) : Accounted (events ++ handling) after := by
  have quiet : ∀ id, logs id (events ++ handling) = logs id events := fun id => by
    rw [logs_append, handled.logs_eq_zero, Nat.add_zero]
  have held : ∀ id < middle.flowTable.built, Once id (events ++ handling) middle := by
    intro id known
    unfold Once
    rw [quiet]
    exact accounted.held id known
  cases handled with
  | skipped => exact ⟨held, fun id late => (quiet id).trans (accounted.unborn id late)⟩
  | known => exact ⟨held, fun id late => (quiet id).trans (accounted.unborn id late)⟩
  | fresh src dst =>
      refine ⟨fun id known => ?_, fun id late => ?_⟩
      · exact Once.added kept held
          ((quiet _).trans (accounted.unborn _ (Nat.le_refl _))) _ known
      · exact (quiet id).trans (accounted.unborn id (Nat.le_of_succ_le late))

/-- In the order of their timestamps, packets lose no flow, even without directions. -/
theorem Accounted.run {evIpv4 evIpv6 : EvId} (sorted : Sorted calls)
    (positive : ∀ input ∈ calls, 0 < input.p.tvSec)
    (reached : ((ModFlow.new evIpv4 evIpv6).run calls).result = some this) :
    Accounted ((ModFlow.new evIpv4 evIpv6).run calls).events this := by
  induction calls using List.reverseRecOn generalizing this with
  | nil =>
      cases reached
      exact ⟨nofun, fun _ _ => rfl⟩
  | append_singleton calls input ih =>
      obtain ⟨before, (earlier : ((ModFlow.new evIpv4 evIpv6).run calls).result = some before),
        returned⟩ := Exec.run_snoc_result.mp reached
      have front : calls <+: calls ++ [input] := List.prefix_append _ _
      have older := fun other member => positive other (front.subset member)
      have accounted := ih (sorted.of_prefix front) older earlier
      have steady := Steady.run (sorted.of_prefix front) older earlier
      have fits : Fits input.p before := fun id until_ held _ =>
        Int.lt_of_le_of_lt (steady.punctual.remain_le held) (by decide)
      have events : ((ModFlow.new evIpv4 evIpv6).run (calls ++ [input])).events =
          ((ModFlow.new evIpv4 evIpv6).run calls).events ++
            (before.recv input.dns input.eid input.p).events :=
        Exec.run_snoc_events input earlier
      obtain ⟨free, middle, handling, ticked, handled, same⟩ :=
        handled_of_recv steady.kept returned
      rw [events, same, ← List.append_assoc]
      have told := logs_tickEvents_of_free steady.kept free
      refine Accounted.handle ⟨fun id known => ?_, fun id late => ?_⟩ (ticked.kept steady.kept)
        handled
      · exact (accounted.held id (ticked.built ▸ known)).tick steady.kept steady.clocked ticked fits
          (told id)
      · rw [ticked.built] at late
        rw [logs_append, accounted.unborn id late, told, if_neg]
        rintro ⟨due, -⟩
        obtain ⟨slot, live⟩ := expired_live steady.kept due
        exact Nat.not_lt.mpr late (steady.kept.wf.live_lt live)

/-! ## Stale packets -/

/-- The flows of the session of a stale packet were last updated before the timeout. -/
theorem Stale.updated_lt {evIpv4 evIpv6 : EvId} {p : Property} (stale : Stale evIpv4 evIpv6 calls p)
    (sorted : Sorted calls) (seen : Seen evIpv4 evIpv6 calls this) {id : ℕ}
    (known : id < this.flowTable.built) (session : (this.flow id).key = p.ssnLabel) :
    (this.flow id).updatedAt + flowTimeout + 1 < p.tvSec := by
  obtain ⟨other, member, ⟨ip, keyIs⟩, dated⟩ := seen id known
  obtain ⟨front, last, back, rfl, -, quiet, late⟩ := stale
  have labelled : Labelled evIpv4 evIpv6 p.ssnLabel other :=
    ⟨ip, (congrArg FlowKey.label keyIs).trans session⟩
  have order : other.p.tvSec ≤ last.p.tvSec := by
    rcases List.mem_append.mp member with earlier | here
    · exact (List.pairwise_append.mp sorted).2.2 other earlier last List.mem_cons_self
    · rcases List.mem_cons.mp here with rfl | later
      · exact Int.le_refl _
      · exact (quiet other later labelled).elim
  omega

section Call

variable {p : Property} {events : List FlowEvent} {dns : ModDns} {eid : EvId}

theorem Until.lt_iff (kept : this.Kept) (clocked : this.Clocked) {id : ℕ} {until_ : ℤ}
    (held : this.Until id until_) : until_ < p.tvSec ↔ id ∈ this.expired p := by
  rw [mem_expired_iff kept clocked]
  constructor
  · intro early
    exact ⟨until_, early, held⟩
  · rintro ⟨other, early, held'⟩
    rwa [held.unique kept held']

/-- What the flows logged in a call that returns have been logged in all. -/
theorem logs_call (kept : this.Kept) (free : ∀ id ∈ this.expired p, ¬ Stuck (this.flow id))
    {handling : List FlowEvent} (handled : Handled dns eid p middle handling after) (id : ℕ) :
    logs id (events ++ (this.tickEvents p ++ handling)) = logs id events +
      if id ∈ this.expired p ∧ ¬ 0 < (this.flow id).remain then 1 else 0 := by
  rw [logs_append, logs_append, handled.logs_eq_zero, Nat.add_zero,
    logs_tickEvents_of_free kept free]

/-- A packet is only renewed when the flows of its session are spent. -/
theorem Renewed.spent (renewed : Renewed p events this (this.recv dns eid p)) (kept : this.Kept)
    (clocked : this.Clocked) (accounted : Accounted events this) : Spent p this := by
  obtain ⟨returns, logged, -, -⟩ := renewed
  rcases recv_spec dns eid p kept with ⟨-, aborted, -⟩ |
    ⟨free, middle, handling, after, ticked, handled, same⟩
  · rw [aborted] at returns
    cases returns
  rw [same] at logged
  refine ⟨fun id until_ held session => ?_, fun id until_ held early settled undirected => ?_⟩
  · have ⟨slot, live, _⟩ := held
    have known := kept.wf.live_lt live
    have once := logged id known session
    rcases accounted.held id known with ⟨-, zero⟩ | ⟨gone, -⟩
    · rw [logs_call kept free handled, zero, Nat.zero_add] at once
      have ⟨due, overdue⟩ : id ∈ this.expired p ∧ ¬ 0 < (this.flow id).remain := by
        by_contra other
        rw [if_neg other] at once
        cases once
      rw [Flow.remain_pos, Int.not_lt] at overdue
      exact ⟨overdue, fun _ => (held.lt_iff kept clocked).mpr due⟩
    · exact (gone slot live).elim
  · apply free id ((held.lt_iff kept clocked).mp early)
    refine ⟨?_, Flow.buildMessage_eq_none.mpr undirected⟩
    rwa [Flow.remain_pos, Int.not_lt]

/-- Every flow of a spent and old session that is still held is logged in the call. -/
theorem Spent.due (spent : Spent p this) (kept : this.Kept) (clocked : this.Clocked)
    (punctual : this.Punctual) {id slot : ℕ} (live : this.flowTable.Live id slot)
    (session : (this.flow id).key = p.ssnLabel)
    (old : (this.flow id).updatedAt + flowTimeout + 1 < p.tvSec) :
    id ∈ this.expired p ∧ ¬ 0 < (this.flow id).remain := by
  obtain ⟨until_, held⟩ := exists_until live
  obtain ⟨refreshed, late⟩ := spent.session id until_ held session
  have bounded := (punctual id until_ held).1
  rw [← held.lt_iff kept clocked, Flow.remain_pos, Int.not_lt]
  refine ⟨?_, refreshed⟩
  rcases Int.lt_or_eq_of_le refreshed with again | still
  · exact late again
  · omega

/-- When the flows of its session are spent and old, the packet is renewed. -/
theorem Spent.renewed (spent : Spent p this) (kept : this.Kept) (clocked : this.Clocked)
    (punctual : this.Punctual) (accounted : Accounted events this)
    (ip : eid = this.evIpv4 ∨ eid = this.evIpv6)
    (old : ∀ id < this.flowTable.built, (this.flow id).key = p.ssnLabel →
      (this.flow id).updatedAt + flowTimeout + 1 < p.tvSec) :
    Renewed p events this (this.recv dns eid p) := by
  have settled : ∀ id slot, this.flowTable.Live id slot → (this.flow id).key = p.ssnLabel →
      id ∈ this.expired p ∧ ¬ 0 < (this.flow id).remain := fun id slot live session =>
    spent.due kept clocked punctual live session (old id (kept.wf.live_lt live) session)
  rcases recv_spec dns eid p kept with ⟨⟨id, due, overdue, none⟩, -⟩ |
    ⟨free, middle, handling, after, ticked, handled, same⟩
  · obtain ⟨until_, early, held⟩ := (mem_expired_iff kept clocked).mp due
    rw [Flow.remain_pos, Int.not_lt] at overdue
    exact (spent.directed id until_ held early overdue (Flow.buildMessage_eq_none.mp none)).elim
  rw [same]
  have logged : ∀ id < this.flowTable.built, (this.flow id).key = p.ssnLabel →
      logs id (events ++ (this.tickEvents p ++ handling)) = 1 := by
    intro id known session
    rw [logs_call kept free handled]
    rcases accounted.held id known with ⟨⟨slot, live⟩, zero⟩ | ⟨gone, one⟩
    · rw [zero, if_pos (settled id slot live session)]
    · rw [one, if_neg]
      rintro ⟨due, -⟩
      obtain ⟨slot, live⟩ := expired_live kept due
      exact gone slot live
  cases handled with
  | skipped other =>
      rw [ticked.evIpv4, ticked.evIpv6] at other
      exact (other ip).elim
  | known id slot _ live keyIs =>
      have session : (this.flow id).key = p.ssnLabel := by
        rw [ticked.flowKey] at keyIs
        exact congrArg FlowKey.label keyIs
      obtain ⟨slot', before⟩ := ticked.of_live kept live
      obtain ⟨due, overdue⟩ := settled id slot' before session
      rcases (ticked.live id slot).mp live with ⟨-, notDue⟩ | ⟨-, remains, -⟩
      · exact (notDue due).elim
      · exact (overdue remains).elim
  | fresh src dst =>
      refine ⟨rfl, logged, ⟨newMessage p (Flow.new p src dst) src dst, ?_⟩, fun id q => ?_⟩
      · rw [ticked.built]
        exact List.mem_append_right _ List.mem_cons_self
      · rw [List.mem_append, or_iff_right (counted_not_mem_tickEvents q), ticked.built]
        simp

end Call

/-- **When a stale flow is not continued.** In a run of packets with nondecreasing
positive timestamps, an IP packet that comes more than the timeout after the last one
of its session finds the earlier flows of the session logged and starts a new one, if
and only if those that are still held are spent. -/
theorem renewed_iff_spent (evIpv4 evIpv6 : EvId) (calls : List Input) (input : Input)
    (sorted : Sorted (calls ++ [input]))
    (positive : ∀ other ∈ calls ++ [input], 0 < other.p.tvSec) (this : ModFlow)
    (reached : ((ModFlow.new evIpv4 evIpv6).run calls).result = some this)
    (ip : input.eid = evIpv4 ∨ input.eid = evIpv6) (stale : Stale evIpv4 evIpv6 calls input.p) :
    Renewed input.p ((ModFlow.new evIpv4 evIpv6).run calls).events this
      (this.recv input.dns input.eid input.p) ↔ Spent input.p this := by
  have front : calls <+: calls ++ [input] := List.prefix_append _ _
  have older := fun other member => positive other (front.subset member)
  have steady := Steady.run (sorted.of_prefix front) older reached
  have accounted := Accounted.run (sorted.of_prefix front) older reached
  obtain ⟨four, six⟩ := bound_run (Kept.new evIpv4 evIpv6) reached
  constructor
  · intro renewed
    exact renewed.spent steady.kept steady.clocked accounted
  · intro spent
    refine spent.renewed steady.kept steady.clocked steady.punctual accounted ?_
      fun id known session => stale.updated_lt (sorted.of_prefix front) (Seen.run reached) known
        session
    rw [four, six]
    exact ip

/-- Two packets of one flow, and a third more than the timeout later. -/
def revivedFlow : List Input := [.sample 1 1, .sample 2 1]

theorem revivedFlow_stale : Sorted (revivedFlow ++ [.sample 700 1]) ∧
    (∀ other ∈ revivedFlow ++ [.sample 700 1], 0 < other.p.tvSec) ∧
    Stale 4 6 revivedFlow (Property.sample 700 1) := by
  refine ⟨by decide, by decide, [.sample 1 1], .sample 2 1, [], rfl, ⟨.inl rfl, rfl⟩,
    List.forall_mem_nil _, by decide⟩

/-- The third packet is counted in the flow of the first two. -/
theorem revivedFlow_not_renewed : ∃ this,
    ((ModFlow.new 4 6).run revivedFlow).result = some this ∧
    Stale 4 6 revivedFlow (Property.sample 700 1) ∧
    .counted 0 (Property.sample 700 1) ∈
      (this.recv ModDns.new 4 (Property.sample 700 1)).events ∧
    ¬ Renewed (Property.sample 700 1) ((ModFlow.new 4 6).run revivedFlow).events this
      (this.recv ModDns.new 4 (Property.sample 700 1)) := by
  have computed : ((ModFlow.new 4 6).run revivedFlow).result.map (fun this =>
      decide (FlowEvent.counted 0 (Property.sample 700 1) ∈
        (this.recv ModDns.new 4 (Property.sample 700 1)).events) &&
      decide (this.flowTable.built = 1)) = some true := by
    decide +kernel
  obtain ⟨this, reached, facts⟩ := Option.map_eq_some_iff.mp computed
  obtain ⟨counted, built⟩ := (Bool.and_eq_true _ _).mp facts
  have counted := of_decide_eq_true counted
  refine ⟨this, reached, revivedFlow_stale.2.2, counted, fun renewed => ?_⟩
  have own := ((renewed.counted 0 _).mp counted).1
  rw [of_decide_eq_true built] at own
  cases own

/-- A flow with one packet is logged before the next one is counted. -/
theorem renewed_iff_spent_sample : ∃ this,
    ((ModFlow.new 4 6).run [.sample 1 1]).result = some this ∧
    Renewed (Property.sample 700 1) ((ModFlow.new 4 6).run [.sample 1 1]).events this
      (this.recv ModDns.new 4 (Property.sample 700 1)) := by
  have computed : ((ModFlow.new 4 6).run [.sample 1 1]).result.map (fun this =>
      this.flowTable.table.live.all fun entry =>
        (this.flow entry.1).updatedAt = (this.flow entry.1).refreshedAt ∧
          (this.flow entry.1).initDir ≠ .nil) = some true := by
    decide +kernel
  obtain ⟨this, reached, facts⟩ := Option.map_eq_some_iff.mp computed
  have flows : ∀ id slot, this.flowTable.Live id slot →
      (this.flow id).updatedAt = (this.flow id).refreshedAt ∧ (this.flow id).initDir ≠ .nil :=
    fun id slot live => of_decide_eq_true (List.all_eq_true.mp facts (id, slot) live)
  refine ⟨this, reached, (renewed_iff_spent 4 6 [.sample 1 1] (.sample 700 1) (by decide)
    (by decide) this reached (.inl rfl) ?_).mpr ⟨?_, ?_⟩⟩
  · exact ⟨[], .sample 1 1, [], rfl, ⟨.inl rfl, rfl⟩, List.forall_mem_nil _, by decide⟩
  · rintro id until_ ⟨slot, live, -⟩ -
    obtain ⟨same, -⟩ := flows id slot live
    omega
  · rintro id until_ ⟨slot, live, -⟩ - -
    exact (flows id slot live).2

end ModFlow

end Devourer
