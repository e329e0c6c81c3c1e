import Devourer.Modules.Flow.Conservation
import Devourer.Modules.Flow.Timeout

/-! # A quiet flow is logged

A flow that gets no more packets is put again at most once, because a refresh
later than the last update leaves it no time remaining. No put keeps a flow for
more than 600 seconds, so two packets of other flows, each 601 seconds after the
one before, are enough to have it logged. The life of a quiet flow goes through
three phases (`Phase`), which a call can only advance.
-/

namespace Devourer

namespace ModFlow

/-- The event is a put of the flow. -/
def isPut (id : ℕ) : FlowEvent → Bool
  | .put other _ _ => other = id
  | _ => false

/-- How often the flow was put. -/
def puts (id : ℕ) (events : List FlowEvent) : ℕ := events.countP (isPut id)

theorem puts_append (id : ℕ) (first second : List FlowEvent) :
    puts id (first ++ second) = puts id first + puts id second := List.countP_append ..

theorem puts_turnEvents (timeslots id other : ℕ) (flow : Flow) :
    puts id (turnEvents timeslots other flow) = if other = id ∧ 0 < flow.remain then 1 else 0 := by
  unfold turnEvents
  by_cases remains : 0 < flow.remain
  · by_cases self : other = id <;> simp [remains, puts, isPut, self]
  · cases flow.buildMessage <;> simp [remains, puts, isPut]

/-- A tick puts the expired flows with time remaining. -/
theorem puts_tickEvents {p : Property} {this : ModFlow} (kept : this.Kept) (id : ℕ) :
    puts id (this.tickEvents p) =
      if id ∈ this.expired p ∧ 0 < (this.flow id).remain then 1 else 0 := by
  have own : ∀ other flow, other ≠ id → puts id (turnEvents 3600 other flow) = 0 := by
    intro other flow different
    rw [puts_turnEvents, if_neg fun both => different both.1]
  unfold puts
  rw [countP_tickEvents kept own]
  change (if id ∈ this.expired p then puts id _ else 0) = _
  rw [puts_turnEvents, ← ite_and]
  simp only [true_and]

variable {this middle after : ModFlow} {dns : ModDns} {eid : EvId} {p : Property}
  {handling : List FlowEvent}

/-- Handling a packet that is not counted in a flow leaves the flow alone. -/
theorem Handled.frame (handled : Handled dns eid p middle handling after) (kept : middle.Kept)
    (clocked : middle.Clocked) {id : ℕ} (known : id < middle.flowTable.built)
    (other : ∀ q, .counted id q ∉ handling) :
    after.flow id = middle.flow id ∧ (∀ until_, after.Until id until_ ↔ middle.Until id until_) ∧
      id < after.flowTable.built ∧ puts id handling = 0 := by
  cases handled with
  | skipped => exact ⟨rfl, fun _ => Iff.rfl, known, rfl⟩
  | known self slot ip live same =>
      have different : id ≠ self := fun same => other p (same ▸ List.mem_cons_self)
      refine ⟨?_, fun _ => Iff.rfl, known, rfl⟩
      rw [counted_flow, if_neg different]
  | fresh src dst ip srcIs dstIs unknown =>
      have different : id ≠ middle.flowTable.built := Nat.ne_of_lt known
      refine ⟨?_, fun until_ => ?_, Nat.lt_succ_of_lt known, ?_⟩
      · rw [counted_flow, if_neg different, added_flow_of_lt known]
      · rw [counted_until, added_until kept clocked]
        simp only [different, false_and, or_false]
      · simp [puts, isPut, different.symm]

/-- The life of a flow whose last packet came at second `u`: it waits for its time
to run out, it may be put again once, and it is gone. -/
inductive Phase (id : ℕ) (u : ℤ) (inputs : List Input) (events : List FlowEvent)
    (this : ModFlow) : Prop where
  | waiting (until_ : ℤ) : this.Until id until_ → until_ ≤ u + flowTimeout →
      (this.flow id).updatedAt = u → (this.flow id).initDir ≠ .nil → puts id events = 0 →
      logs id events = 0 → Phase id u inputs events this
  | again (until_ : ℤ) : this.Until id until_ →
      until_ ≤ (this.flow id).refreshedAt + flowTimeout → u < (this.flow id).refreshedAt →
      (this.flow id).updatedAt = u → (this.flow id).initDir ≠ .nil →
      (∀ input ∈ inputs, u + flowTimeout < input.p.tvSec →
        (this.flow id).refreshedAt ≤ input.p.tvSec) →
      puts id events = 1 → logs id events = 0 → Phase id u inputs events this
  | gone : (∀ until_, ¬ this.Until id until_) → id < this.flowTable.built →
      puts id events ≤ 1 → logs id events = 1 → Phase id u inputs events this

/-- A tick reports nothing about a flow that has not expired. -/
theorem quiet_of_not_expired (kept : this.Kept) {id : ℕ} (notDue : id ∉ this.expired p)
    (events : List FlowEvent) : puts id (events ++ this.tickEvents p) = puts id events ∧
      logs id (events ++ this.tickEvents p) = logs id events := by
  rw [puts_append, puts_tickEvents kept, logs_append, logs_tickEvents kept]
  rw [if_neg fun both => notDue both.1, if_neg fun both => notDue both.1]
  exact ⟨rfl, rfl⟩

/-- The tick reports the put of an expired flow with time remaining. -/
theorem told_of_putAgain (kept : this.Kept) (clocked : this.Clocked) {id : ℕ} {until_ : ℤ}
    (held : this.Until id until_) (overdue : until_ < p.tvSec)
    (remains : 0 < (this.flow id).remain) :
    puts id (this.tickEvents p) = 1 ∧ logs id (this.tickEvents p) = 0 := by
  have due := (mem_expired_iff (p := p) kept clocked).mpr ⟨until_, overdue, held⟩
  rw [puts_tickEvents kept, if_pos ⟨due, remains⟩, logs_tickEvents kept,
    if_neg fun both => both.2.1 remains]
  exact ⟨rfl, rfl⟩

/-- An expired flow without time remaining is logged by the tick and gone. -/
theorem Ticked.log (ticked : Ticked p this middle) (kept : this.Kept) (clocked : this.Clocked)
    (positive : 0 < p.tvSec) {id : ℕ} {until_ : ℤ} (held : this.Until id until_)
    (overdue : until_ < p.tvSec) (still : ¬ 0 < (this.flow id).remain)
    (directed : (this.flow id).initDir ≠ .nil) :
    (∀ later, ¬ middle.Until id later) ∧ id < middle.flowTable.built ∧
      puts id (this.tickEvents p) = 0 ∧ logs id (this.tickEvents p) = 1 := by
  have due := (mem_expired_iff (p := p) kept clocked).mpr ⟨until_, overdue, held⟩
  have known : id < this.flowTable.built := by
    obtain ⟨slot, live, -⟩ := held
    exact kept.wf.live_lt live
  refine ⟨fun later after => ?_, ticked.built ▸ known, ?_, ?_⟩
  · rcases (ticked.until_iff kept clocked positive).mp after with ⟨before, waiting⟩ |
      ⟨-, remains, -⟩
    · have same := held.unique kept before
      omega
    · exact still remains
  · rw [puts_tickEvents kept, if_neg fun both => still both.2]
  · have built : (this.flow id).buildMessage.isSome = true :=
      Option.isSome_iff_ne_none.mpr fun none => directed (Flow.buildMessage_eq_none.mp none)
    rw [logs_tickEvents kept, if_pos ⟨due, still, built⟩]

/-- A flow that waits goes on waiting, is put again or is logged. -/
theorem Phase.tick_waiting {id : ℕ} {u until_ : ℤ} {calls inputs : List Input} {input : Input}
    {events : List FlowEvent} (steady : Steady (calls ++ inputs) this)
    (ticked : Ticked input.p this middle) (positive : 0 < input.p.tvSec)
    (held : this.Until id until_) (short : until_ ≤ u + flowTimeout)
    (updated : (this.flow id).updatedAt = u)
    (directed : (this.flow id).initDir ≠ .nil) (noPuts : puts id events = 0)
    (noLogs : logs id events = 0) :
    Phase id u (inputs ++ [input]) (events ++ this.tickEvents input.p) middle := by
  have kept := steady.kept
  have clocked := steady.clocked
  by_cases waiting : input.p.tvSec ≤ until_
  · obtain ⟨notDue, stays, same⟩ := ticked.wait kept clocked positive held waiting
    obtain ⟨samePuts, sameLogs⟩ := quiet_of_not_expired kept notDue events
    exact .waiting until_ stays short (same ▸ updated) (same ▸ directed) (samePuts.trans noPuts)
      (sameLogs.trans noLogs)
  have overdue : until_ < input.p.tvSec := Int.not_le.mp waiting
  by_cases remains : 0 < (this.flow id).remain
  · have small := steady.punctual.remain_le held
    obtain ⟨later, same⟩ := ticked.putAgain kept clocked positive held overdue remains
      (Int.lt_of_le_of_lt small (by decide))
    obtain ⟨onePut, noLog⟩ := told_of_putAgain kept clocked held overdue remains
    have lastUpdate := (steady.punctual id until_ held).2.2
    have reached := held.lastTs_le
    have refreshed : (middle.flow id).refreshedAt = input.p.tvSec := by
      rw [same, Flow.refreshedAt_refresh]
    refine .again _ later ?_ ?_ ?_ ?_ (fun other member late => ?_) ?_ ?_
    · omega
    · omega
    · rw [same, Flow.updatedAt_refresh]
      exact updated
    · rw [same, Flow.initDir_refresh]
      exact directed
    · -- no packet that came earlier is late enough
      rw [refreshed]
      rcases List.mem_append.mp member with earlier | now
      · have before := steady.paced.latest other (List.mem_append_right _ earlier)
        omega
      · rw [List.mem_singleton.mp now]
    · rw [puts_append, noPuts, onePut]
    · rw [logs_append, noLogs, noLog]
  · obtain ⟨left, known, noPut, logged⟩ :=
      ticked.log kept clocked positive held overdue remains directed
    refine .gone left known ?_ ?_
    · rw [puts_append, noPuts, noPut]
      exact Nat.zero_le 1
    · rw [logs_append, noLogs, logged]

/-- A flow that was put again goes on waiting or is logged. -/
theorem Phase.tick_again {id : ℕ} {u until_ : ℤ} {calls inputs : List Input} {input : Input}
    {events : List FlowEvent} (steady : Steady (calls ++ inputs) this)
    (ticked : Ticked input.p this middle) (positive : 0 < input.p.tvSec)
    (forward : this.lastTs ≤ input.p.tvSec) (held : this.Until id until_)
    (short : until_ ≤ (this.flow id).refreshedAt + flowTimeout)
    (later : u < (this.flow id).refreshedAt) (updated : (this.flow id).updatedAt = u)
    (directed : (this.flow id).initDir ≠ .nil)
    (first : ∀ input ∈ inputs, u + flowTimeout < input.p.tvSec →
      (this.flow id).refreshedAt ≤ input.p.tvSec)
    (onePut : puts id events = 1) (noLogs : logs id events = 0) :
    Phase id u (inputs ++ [input]) (events ++ this.tickEvents input.p) middle := by
  have kept := steady.kept
  have clocked := steady.clocked
  by_cases waiting : input.p.tvSec ≤ until_
  · obtain ⟨notDue, stays, same⟩ := ticked.wait kept clocked positive held waiting
    obtain ⟨samePuts, sameLogs⟩ := quiet_of_not_expired kept notDue events
    have refreshed := (steady.punctual id until_ held).2.1
    refine .again until_ stays (same ▸ short) (same ▸ later) (same ▸ updated) (same ▸ directed)
      (fun other member late => ?_) (samePuts.trans onePut) (sameLogs.trans noLogs)
    rw [same]
    rcases List.mem_append.mp member with earlier | now
    · exact first other earlier late
    · rw [List.mem_singleton.mp now]
      omega
  · have still : ¬ 0 < (this.flow id).remain := by
      rw [Flow.remain_pos]
      omega
    obtain ⟨left, known, noPut, logged⟩ :=
      ticked.log kept clocked positive held (Int.not_le.mp waiting) still directed
    refine .gone left known ?_ ?_
    · rw [puts_append, onePut, noPut]
    · rw [logs_append, noLogs, logged]

/-- **One tick advances the life of a quiet flow.** -/
theorem Phase.tick {id : ℕ} {u : ℤ} {calls inputs : List Input} {input : Input}
    {events : List FlowEvent} (phase : Phase id u inputs events this)
    (steady : Steady (calls ++ inputs) this) (ticked : Ticked input.p this middle)
    (positive : 0 < input.p.tvSec) (forward : this.lastTs ≤ input.p.tvSec) :
    Phase id u (inputs ++ [input]) (events ++ this.tickEvents input.p) middle := by
  cases phase with
  | waiting until_ held short updated directed noPuts noLogs =>
      exact Phase.tick_waiting steady ticked positive held short updated directed noPuts noLogs
  | again until_ held short later updated directed first onePut noLogs =>
      exact Phase.tick_again steady ticked positive forward held short later updated directed first
        onePut noLogs
  | gone left known fewPuts oneLog =>
      have notDue : id ∉ this.expired input.p := by
        intro due
        obtain ⟨until_, -, held⟩ := (mem_expired_iff steady.kept steady.clocked).mp due
        exact left until_ held
      obtain ⟨samePuts, sameLogs⟩ := quiet_of_not_expired steady.kept notDue events
      refine .gone (fun later after => ?_) (ticked.built ▸ known) (samePuts ▸ fewPuts)
        (sameLogs.trans oneLog)
      rcases (ticked.until_iff steady.kept steady.clocked positive).mp after with
        ⟨before, -⟩ | ⟨due, -⟩
      · exact left later before
      · exact notDue due

/-- Packets of other flows do not touch the life of a quiet flow. -/
theorem Phase.handle {id : ℕ} {u : ℤ} {inputs : List Input} {events : List FlowEvent}
    (phase : Phase id u inputs events middle) (kept : middle.Kept) (clocked : middle.Clocked)
    (handled : Handled dns eid p middle handling after) (other : ∀ q, .counted id q ∉ handling) :
    Phase id u inputs (events ++ handling) after := by
  have frame : id < middle.flowTable.built → _ := fun known =>
    handled.frame kept clocked known other
  have known : ∀ {until_}, middle.Until id until_ → id < middle.flowTable.built := by
    rintro until_ ⟨slot, live, -⟩
    exact kept.wf.live_lt live
  have noLog : logs id (events ++ handling) = logs id events := by
    rw [logs_append, handled.logs_eq_zero, Nat.add_zero]
  cases phase with
  | waiting until_ held short updated directed noPuts noLogs =>
      obtain ⟨same, untils, -, noPut⟩ := frame (known held)
      refine .waiting until_ ((untils until_).mpr held) short (same ▸ updated) (same ▸ directed) ?_
        (noLog.trans noLogs)
      rw [puts_append, noPuts, noPut]
  | again until_ held short later updated directed first onePut noLogs =>
      obtain ⟨same, untils, -, noPut⟩ := frame (known held)
      refine .again until_ ((untils until_).mpr held) (same ▸ short) (same ▸ later)
        (same ▸ updated) (same ▸ directed) (same ▸ first) ?_ (noLog.trans noLogs)
      rw [puts_append, onePut, noPut]
  | gone left born fewPuts oneLog =>
      obtain ⟨same, untils, born', noPut⟩ := frame born
      refine .gone (fun later held => left later ((untils later).mp held)) born' ?_
        (noLog.trans oneLog)
      rw [puts_append, noPut]
      exact fewPuts

/-! ## Runs -/

/-- In the order of their timestamps no packets make the module abort or lose a
flow. -/
theorem exists_tidy (evIpv4 evIpv6 : EvId) {inputs : List Input} (sorted : Sorted inputs)
    (valid : ∀ input ∈ inputs, Valid input) :
    ∃ this, ((ModFlow.new evIpv4 evIpv6).run inputs).result = some this ∧
      Tidy ((ModFlow.new evIpv4 evIpv6).run inputs).events this := by
  apply Tidy.run valid
  intro calls input shorter this reached id until_ held _
  have front : calls <+: inputs := (List.prefix_append _ _).trans shorter
  have steady := Steady.run (sorted.of_prefix front)
    (fun other member => (valid other (front.subset member)).1) reached
  exact Int.lt_of_le_of_lt (steady.punctual.remain_le held) (by decide)

/-- A flow in which a call counted its packet waits. -/
theorem Phase.start {inputs : List Input} {input : Input} {events : List FlowEvent} {id : ℕ}
    {before : ModFlow} (kept : before.Kept)
    (returned : (before.recv input.dns input.eid input.p).result = some this)
    (counted : .counted id input.p ∈ (before.recv input.dns input.eid input.p).events)
    (steady : Steady (inputs ++ [input]) this) (now : this.lastTs = input.p.tvSec)
    (tidy : Tidy events this) : Phase id input.p.tvSec [] [] this := by
  have found : (∃ until_, this.Until id until_) ∧ (this.flow id).updatedAt = input.p.tvSec := by
    obtain ⟨-, middle, handling, ticked, handled, same⟩ :=
      handled_of_recv kept returned
    rw [same] at counted
    rcases List.mem_append.mp counted with ticking | here
    · exact (counted_not_mem_tickEvents _ ticking).elim
    cases handled with
    | skipped => cases here
    | known other slot ip live same =>
        cases List.mem_singleton.mp here
        refine ⟨exists_until live, ?_⟩
        rw [counted_flow, if_pos rfl, Flow.updatedAt_update]
    | fresh src dst ip srcIs dstIs unknown =>
        simp only [List.mem_cons, reduceCtorEq, FlowEvent.counted.injEq, and_true,
          List.not_mem_nil, or_false, false_or] at here
        subst here
        refine ⟨exists_until ((added_live ticked.size _ _ _).mpr (.inr ⟨rfl, rfl⟩)), ?_⟩
        rw [counted_flow, if_pos rfl, Flow.updatedAt_update]
  obtain ⟨⟨until_, held⟩, updated⟩ := found
  obtain ⟨short, refreshed, -⟩ := steady.punctual id until_ held
  obtain ⟨slot, live, rfl⟩ := held
  exact .waiting _ ⟨slot, live, rfl⟩ (by omega) updated (tidy.directed id slot live) rfl rfl

/-- Along the packets that follow, the flow goes through its phases. -/
theorem Phase.run {calls inputs : List Input} {id : ℕ} {u : ℤ} {start : ModFlow}
    (phase : Phase id u [] [] start) (steady : Steady calls start)
    (sorted : Sorted (calls ++ inputs)) (positive : ∀ input ∈ inputs, 0 < input.p.tvSec)
    (quiet : ∀ q, .counted id q ∉ (start.run inputs).events)
    (reached : (start.run inputs).result = some this) :
    Steady (calls ++ inputs) this ∧ Phase id u inputs (start.run inputs).events this := by
  refine (run_induction steady.kept (fun inputs events this => Sorted (calls ++ inputs) →
    (∀ input ∈ inputs, 0 < input.p.tvSec) → (∀ q, .counted id q ∉ events) →
      Steady (calls ++ inputs) this ∧ Phase id u inputs events this)
    (fun _ _ _ => ⟨(List.append_nil calls).symm ▸ steady, phase⟩)
    (fun inputs input events this middle handling after _ ticked handled earlier sorted positive
      quiet => ?_) reached).2 sorted positive quiet
  rw [← List.append_assoc] at sorted
  obtain ⟨steady, phase⟩ := earlier (sorted.of_prefix (List.prefix_append _ _))
    (fun other member => positive other (List.mem_append_left _ member))
    (fun q member => quiet q (List.mem_append_left _ member))
  have now := positive input (List.mem_append_right _ List.mem_cons_self)
  obtain ⟨forward, -, clocked, after⟩ := steady.step sorted now ticked handled
  rw [List.append_assoc] at after
  refine ⟨after, ?_⟩
  rw [← List.append_assoc]
  exact (phase.tick steady ticked now forward).handle (ticked.kept steady.kept) clocked handled
    fun q member => quiet q (List.mem_append_right _ (List.mem_append_right _ member))

/-- The flow is logged once two packets have come, each 601 seconds after the one
before. -/
theorem Phase.settled {id : ℕ} {u : ℤ} {calls inputs : List Input} {events : List FlowEvent}
    {first second : Input} (phase : Phase id u inputs events this)
    (steady : Steady (calls ++ inputs) this) (firstSeen : first ∈ inputs)
    (secondSeen : second ∈ inputs) (late : u + 601 ≤ first.p.tvSec)
    (later : first.p.tvSec + 601 ≤ second.p.tvSec) :
    (∀ until_, ¬ this.Until id until_) ∧ logs id events = 1 := by
  have shown := steady.paced.latest second (List.mem_append_right _ secondSeen)
  cases phase with
  | waiting until_ held short =>
      have reached := held.lastTs_le
      simp only [flowTimeout] at short
      omega
  | again until_ held short _ _ _ refreshed =>
      have reached := held.lastTs_le
      have before := refreshed first firstSeen (by simp only [flowTimeout]; omega)
      simp only [flowTimeout] at short
      omega
  | gone left _ _ logged => exact ⟨left, logged⟩

/-- No flow is ever put for more than the timeout. -/
theorem ttl_le_timeout {evIpv4 evIpv6 : EvId} {inputs : List Input} {this : ModFlow}
    (sorted : Sorted inputs) (positive : ∀ input ∈ inputs, 0 < input.p.tvSec)
    (reached : ((ModFlow.new evIpv4 evIpv6).run inputs).result = some this) :
    ∀ (id ttl : ℕ) taken, .put id ttl taken ∈ ((ModFlow.new evIpv4 evIpv6).run inputs).events →
      (ttl : ℤ) ≤ flowTimeout := by
  refine ((run_induction (Kept.new evIpv4 evIpv6) (fun inputs events this => Sorted inputs →
    (∀ input ∈ inputs, 0 < input.p.tvSec) → Steady inputs this ∧
      ∀ (id ttl : ℕ) taken, .put id ttl taken ∈ events → (ttl : ℤ) ≤ flowTimeout)
    (fun _ _ => ⟨Steady.new evIpv4 evIpv6, fun _ _ _ => nofun⟩)
    (fun inputs input events this middle handling after kept ticked handled earlier sorted
      positive => ?_) reached).2 sorted positive).2
  obtain ⟨steady, short⟩ := earlier (sorted.of_prefix (List.prefix_append _ _))
    (fun other member => positive other (List.mem_append_left _ member))
  have now := positive input (List.mem_append_right _ List.mem_cons_self)
  refine ⟨(steady.step sorted now ticked handled).2.2.2, fun id ttl taken member => ?_⟩
  rcases List.mem_append.mp member with before | here
  · exact short id ttl taken before
  rcases List.mem_append.mp here with ticking | handling
  · obtain ⟨other, due, told⟩ := List.mem_flatMap.mp ticking
    obtain ⟨rfl, remains, rfl, -⟩ := put_mem_turnEvents told
    obtain ⟨until_, -, held⟩ := (mem_expired_iff kept steady.clocked).mp due
    have small := steady.punctual.remain_le held
    rw [steady.clocked.sizeOfTime_remain remains]
    omega
  · cases handled with
    | skipped => cases handling
    | known other slot ip live same => simp at handling
    | fresh src dst ip srcIs dstIs unknown =>
        simp only [List.mem_cons, reduceCtorEq, FlowEvent.put.injEq, List.not_mem_nil, or_false,
          false_or] at handling
        rw [handling.2.1]
        decide

/-- **A quiet flow is logged after at most one more put.** In a run of packets with
positive timestamps that do not step backwards, no put is for more than 600
ticks. After the last packet counted in a flow, the flow is put again at most
once, and when a packet 601 seconds later has been handled, and then another 601
seconds after that, the flow was logged and is no longer in the table. -/
theorem quiet_flow_logged (evIpv4 evIpv6 : EvId) (calls : List Input) (last : Input)
    (rest : List Input) (sorted : Sorted (calls ++ [last] ++ rest))
    (valid : ∀ input ∈ calls ++ [last] ++ rest, Valid input) (before this : ModFlow) (id : ℕ)
    (earlier : ((ModFlow.new evIpv4 evIpv6).run calls).result = some before)
    (returned : (before.recv last.dns last.eid last.p).result = some this)
    (counted : .counted id last.p ∈ (before.recv last.dns last.eid last.p).events)
    (quiet : ∀ q, .counted id q ∉ (this.run rest).events) :
    (∀ (other ttl : ℕ) taken,
      .put other ttl taken ∈ ((ModFlow.new evIpv4 evIpv6).run (calls ++ [last] ++ rest)).events →
        (ttl : ℤ) ≤ flowTimeout) ∧
    puts id (this.run rest).events ≤ 1 ∧
    ∀ first second, first ∈ rest → second ∈ rest → last.p.tvSec + 601 ≤ first.p.tvSec →
      first.p.tvSec + 601 ≤ second.p.tvSec →
        ∃ after, (this.run rest).result = some after ∧ logs id (this.run rest).events = 1 ∧
          id ∉ after.flowTable.table.nodes := by
  have front : calls ++ [last] <+: calls ++ [last] ++ rest := List.prefix_append _ _
  have positive : ∀ input ∈ calls ++ [last] ++ rest, 0 < input.p.tvSec := fun input member =>
    (valid input member).1
  have reached : ((ModFlow.new evIpv4 evIpv6).run (calls ++ [last])).result = some this :=
    Exec.run_snoc_result.mpr ⟨before, earlier, returned⟩
  have steady := Steady.run (sorted.of_prefix front)
    (fun input member => positive input (front.subset member)) reached
  obtain ⟨_, same, tidy⟩ := exists_tidy evIpv4 evIpv6 (sorted.of_prefix front)
    fun input member => valid input (front.subset member)
  cases reached.symm.trans same
  have lastPositive := positive last (front.subset (List.mem_append_right _ List.mem_cons_self))
  have waiting := Phase.start (Kept.run earlier) returned counted steady
    (steady.paced.lastTs_eq (sorted.of_prefix front) lastPositive) tidy
  obtain ⟨after, whole, -⟩ := exists_tidy evIpv4 evIpv6 sorted valid
  obtain ⟨_, same, rested⟩ := run_append_result.mp whole
  cases reached.symm.trans same
  obtain ⟨steadyAfter, phase⟩ := waiting.run steady sorted
    (fun input member => positive input (List.mem_append_right _ member)) quiet rested
  refine ⟨ttl_le_timeout sorted positive whole, ?_, fun first second firstSeen secondSeen late
    later => ?_⟩
  · cases phase with
    | waiting _ _ _ _ _ noPuts => exact Nat.le_of_eq noPuts |>.trans (Nat.zero_le 1)
    | again _ _ _ _ _ _ _ onePut => exact Nat.le_of_eq onePut
    | gone _ _ fewPuts => exact fewPuts
  · obtain ⟨left, logged⟩ := phase.settled steadyAfter firstSeen secondSeen late later
    refine ⟨after, rested, logged, fun inside => ?_⟩
    obtain ⟨slot, live⟩ := steadyAfter.kept.mem_nodes_iff.mp inside
    exact left _ ⟨slot, live, rfl⟩

/-- A flow is updated one second after its first packet; it is put again when its
time has run out, and is logged when it has run out once more. -/
theorem quiet_flow_logged_sample : ∃ before this,
    ((ModFlow.new 4 6).run [.sample 1 1]).result = some before ∧
    (before.recv ModDns.new 4 (Property.sample 2 1)).result = some this ∧
    puts 0 (this.run [.sample 603 2, .sample 1204 2]).events ≤ 1 ∧
    ∃ after, (this.run [.sample 603 2, .sample 1204 2]).result = some after ∧
      logs 0 (this.run [.sample 603 2, .sample 1204 2]).events = 1 ∧
        0 ∉ after.flowTable.table.nodes := by
  have computed : ((ModFlow.new 4 6).run [.sample 1 1]).result.bind (fun before =>
      (before.recv ModDns.new 4 (Property.sample 2 1)).result.map fun this =>
        (decide (FlowEvent.counted 0 (Property.sample 2 1) ∈
          (before.recv ModDns.new 4 (Property.sample 2 1)).events),
        (this.run [.sample 603 2, .sample 1204 2]).events.any fun event =>
          match event with
          | .counted id _ => id = 0
          | .put .. => false
          | .emitNew .. => false
          | .emitLog .. => false)) = some (true, false) := by
    decide +kernel
  obtain ⟨before, earlier, rest⟩ := Option.bind_eq_some_iff.mp computed
  obtain ⟨this, returned, facts⟩ := Option.map_eq_some_iff.mp rest
  obtain ⟨counted, quiet⟩ := Prod.mk.inj facts
  have silent : ∀ q, .counted 0 q ∉ (this.run [.sample 603 2, .sample 1204 2]).events := by
    intro q member
    have told := List.any_eq_false.mp quiet _ member
    simp at told
  obtain ⟨-, few, logged⟩ := quiet_flow_logged 4 6 [.sample 1 1] (.sample 2 1)
    [.sample 603 2, .sample 1204 2] (by decide) (by decide) before this 0 earlier returned
    (of_decide_eq_true counted) silent
  exact ⟨before, this, earlier, returned, few, logged (.sample 603 2) (.sample 1204 2)
    (by simp) (by simp) (by decide) (by decide)⟩

end ModFlow

end Devourer
