import Devourer.Modules.Flow.Step

/-! # Flows and the seconds they are kept for

For packets with positive timestamps the tick counter of the flow table runs with
the clock of the module and does not wrap around. A flow is then held until a
certain second (`Until`): a packet of a later second makes the eviction loop
deal with it, and nothing else does.
-/

namespace Devourer

namespace ModFlow

/-- The last second for which the flows filed under the timeslot are kept. -/
def second (this : ModFlow) (slot : ℕ) : ℤ :=
  this.lastTs + Wheel.left this.flowTable.table.timeslotSize this.flowTable.table.currTick slot

/-- The flow is live and kept until the given second. -/
def Until (this : ModFlow) (id : ℕ) (until_ : ℤ) : Prop :=
  ∃ slot, this.flowTable.Live id slot ∧ this.second slot = until_

/-- What the clock and the times in the flows satisfy after positive timestamps. -/
structure Clocked (this : ModFlow) : Prop where
  lastTs_nonneg : 0 ≤ this.lastTs
  lastTs_lt : this.lastTs < 2 ^ 63
  currTick_le : (this.flowTable.table.currTick : ℤ) ≤ this.lastTs
  idle : this.lastTs = 0 → ∀ id slot, ¬ this.flowTable.Live id slot
  refreshed : ∀ id, 0 ≤ (this.flow id).refreshedAt
  updated : ∀ id, (this.flow id).updatedAt < 2 ^ 63

theorem Clocked.new (evIpv4 evIpv6 : EvId) : (ModFlow.new evIpv4 evIpv6).Clocked where
  lastTs_nonneg := Int.le_refl 0
  lastTs_lt := show (0 : ℤ) < 2 ^ 63 by decide
  currTick_le := Int.le_refl 0
  idle := fun _ _ _ => nofun
  refreshed _ := Int.le_refl 0
  updated _ := show (0 : ℤ) < 2 ^ 63 by decide

variable {p : Property} {this middle after : ModFlow}

theorem second_eq_deadline (this : ModFlow) (slot : ℕ) : this.second slot =
    this.lastTs - this.flowTable.table.currTick + this.flowTable.deadline slot := by
  unfold second Pool.deadline
  omega

theorem lastTs_le_second (this : ModFlow) (slot : ℕ) : this.lastTs ≤ this.second slot := by
  unfold second
  omega

theorem Until.lastTs_le {id : ℕ} {until_ : ℤ} (held : this.Until id until_) :
    this.lastTs ≤ until_ := by
  obtain ⟨slot, -, rfl⟩ := held
  exact this.lastTs_le_second slot

/-- A flow is kept until one second. -/
theorem Until.unique (kept : this.Kept) {id : ℕ} {first second : ℤ} (one : this.Until id first)
    (other : this.Until id second) : first = second := by
  obtain ⟨slot, live, rfl⟩ := one
  obtain ⟨slot', live', rfl⟩ := other
  rw [kept.wf.table.slot_unique live live']

theorem exists_until {id slot : ℕ} (live : this.flowTable.Live id slot) :
    ∃ until_, this.Until id until_ := ⟨_, slot, live, rfl⟩

/-- The time remaining of a flow fits `size_t`. -/
theorem Clocked.remain_lt (clocked : this.Clocked) (id : ℕ) : (this.flow id).remain < 2 ^ 63 := by
  have refreshed := clocked.refreshed id
  have updated := clocked.updated id
  unfold Flow.remain
  split <;> omega

theorem Clocked.sizeOfTime_remain (clocked : this.Clocked) {id : ℕ}
    (remains : 0 < (this.flow id).remain) :
    sizeOfTime (this.flow id).remain = (this.flow id).remain.toNat := by
  have bounded := clocked.remain_lt id
  exact sizeOfTime_of_nonneg (by omega) (by omega)

/-- The progress made for a packet, while the clock moves forwards. -/
theorem Clocked.sizeOfTime_diff (clocked : this.Clocked) (later : this.lastTs < p.tvSec) :
    (sizeOfTime (p.tvSec - this.lastTs) : ℤ) = p.tvSec - this.lastTs := by
  have upper := p.tvSec_upper
  have nonneg := clocked.lastTs_nonneg
  rw [sizeOfTime_of_nonneg (by omega) (by omega), Int.toNat_of_nonneg (by omega)]

/-- **The expired flows** are those that were not kept until the second of the
packet. -/
theorem mem_expired_iff (kept : this.Kept) (clocked : this.Clocked) {id : ℕ} :
    id ∈ this.expired p ↔ ∃ until_ < p.tvSec, this.Until id until_ := by
  unfold expired
  by_cases progress : this.lastTs ≠ 0 ∧ this.lastTs < p.tvSec
  · rw [if_pos progress, Pool.mem_exp_prog_iff, kept.swept]
    have diff := clocked.sizeOfTime_diff progress.2
    have tick := clocked.currTick_le
    have upper := p.tvSec_upper
    have passes : ∀ slot, this.flowTable.Live id slot →
        (Table.Visits this.flowTable.table.slotAt 0 (sizeOfTime (p.tvSec - this.lastTs)) slot ↔
          this.second slot < p.tvSec) := by
      intro slot live
      rw [Pool.visits_iff (kept.wf.slot_lt live) (by omega), second_eq_deadline]
      omega
    constructor
    · rintro (absurd | ⟨slot, live, visited⟩)
      · cases absurd
      · exact ⟨_, (passes slot live).mp visited, slot, live, rfl⟩
    · rintro ⟨_, overdue, slot, live, rfl⟩
      exact .inr ⟨slot, live, (passes slot live).mpr overdue⟩
  · rw [if_neg progress]
    constructor
    · nofun
    · rintro ⟨_, overdue, slot, live, rfl⟩
      have started : this.lastTs ≠ 0 := fun first => clocked.idle first id slot live
      have reached := this.lastTs_le_second slot
      exact (progress ⟨started, by omega⟩).elim

/-- After a tick the clock shows the second of the packet or a later one. -/
theorem Ticked.lastTs_eq (ticked : Ticked p this middle) (clocked : this.Clocked)
    (positive : 0 < p.tvSec) : middle.lastTs = max this.lastTs p.tvSec := by
  have nonneg := clocked.lastTs_nonneg
  rw [ticked.lastTs]
  split <;> omega

theorem Ticked.currTick_eq (ticked : Ticked p this middle) (clocked : this.Clocked) :
    (middle.flowTable.table.currTick : ℤ) = this.flowTable.table.currTick +
      if this.lastTs ≠ 0 ∧ this.lastTs < p.tvSec then p.tvSec - this.lastTs else 0 := by
  rw [ticked.currTick]
  by_cases progress : this.lastTs ≠ 0 ∧ this.lastTs < p.tvSec
  · rw [if_pos progress, if_pos progress]
    have diff := clocked.sizeOfTime_diff progress.2
    have tick := clocked.currTick_le
    have upper := p.tvSec_upper
    rw [sizeT_of_lt (by omega)]
    omega
  · rw [if_neg progress, if_neg progress]
    omega

theorem Ticked.clocked (ticked : Ticked p this middle) (clocked : this.Clocked)
    (positive : 0 < p.tvSec) : middle.Clocked := by
  have upper := p.tvSec_upper
  have lastTs := ticked.lastTs_eq clocked positive
  have nonneg := clocked.lastTs_nonneg
  have bounded := clocked.lastTs_lt
  refine ⟨by omega, by omega, ?_, fun first => by omega, fun id => ?_, fun id => ?_⟩
  · have tick := clocked.currTick_le
    rw [ticked.currTick_eq clocked]
    split <;> omega
  · rw [ticked.flow]
    split
    · exact Int.le_of_lt positive
    · exact clocked.refreshed id
  · rw [ticked.updatedAt]
    exact clocked.updated id

/-- A flow that is not expired is kept until the same second. -/
theorem Ticked.second_eq (ticked : Ticked p this middle) (kept : this.Kept)
    (clocked : this.Clocked) {id slot : ℕ} (live : this.flowTable.Live id slot)
    (waiting : p.tvSec ≤ this.second slot) : middle.second slot = this.second slot := by
  have started : this.lastTs ≠ 0 := fun first => clocked.idle first id slot live
  by_cases later : this.lastTs < p.tvSec
  · have progress : this.lastTs ≠ 0 ∧ this.lastTs < p.tvSec := ⟨started, later⟩
    have diff := clocked.sizeOfTime_diff later
    have tick := clocked.currTick_le
    have upper := p.tvSec_upper
    rw [second_eq_deadline] at waiting
    have moved : (this.flowTable.prog (sizeOfTime (p.tvSec - this.lastTs))).deadline slot =
        this.flowTable.deadline slot :=
      Pool.deadline_prog (kept.wf.slot_lt live) (by omega) (by omega)
    have same : middle.flowTable.deadline slot =
        (this.flowTable.prog (sizeOfTime (p.tvSec - this.lastTs))).deadline slot := by
      unfold Pool.deadline
      rw [ticked.currTick, if_pos progress, ticked.size, Pool.prog_timeslotSize, kept.size,
        Pool.prog_currTick]
    rw [second_eq_deadline, second_eq_deadline, same, moved, ticked.currTick_eq clocked,
      if_pos progress, ticked.lastTs, if_pos (.inr later)]
    omega
  · have still : ¬ (this.lastTs ≠ 0 ∧ this.lastTs < p.tvSec) := fun progress => later progress.2
    unfold second
    rw [ticked.lastTs, if_neg (not_or.mpr ⟨started, later⟩), ticked.currTick, if_neg still,
      ticked.size, kept.size]

/-- A node put now is kept for as many seconds as it was put for. -/
theorem second_slotFor (kept : this.Kept) (clocked : this.Clocked) {ttl : ℕ} (short : ttl < 3600) :
    this.second (this.flowTable.table.slotFor ttl) = this.lastTs + ttl := by
  have tick := clocked.currTick_le
  have bounded := clocked.lastTs_lt
  rw [second_eq_deadline, Pool.deadline_slotFor (kept.size.symm ▸ short) (by omega)]
  omega

/-- **What a tick does to the flows.** A flow kept until the second of the packet
stays as it is. An expired flow that has time remaining, less than the wheel
allows, is kept on for that time. -/
theorem Ticked.until_iff (ticked : Ticked p this middle) (kept : this.Kept)
    (clocked : this.Clocked) (positive : 0 < p.tvSec) {id : ℕ} {until_ : ℤ} :
    middle.Until id until_ ↔ this.Until id until_ ∧ p.tvSec ≤ until_ ∨
      id ∈ this.expired p ∧ 0 < (this.flow id).remain ∧ (this.flow id).remain < 3600 ∧
        until_ = p.tvSec + (this.flow id).remain := by
  have filed : ∀ {ttl}, ttl < 3600 → id ∈ this.expired p →
      middle.second (middle.flowTable.table.slotFor ttl) = p.tvSec + ttl := by
    intro ttl short due
    obtain ⟨expiry, overdue, held⟩ := (mem_expired_iff kept clocked).mp due
    have reached := held.lastTs_le
    rw [second_slotFor (ticked.kept kept) (ticked.clocked clocked positive) short,
      ticked.lastTs_eq clocked positive]
    omega
  constructor
  · rintro ⟨slot, live, rfl⟩
    rcases (ticked.live id slot).mp live with ⟨live, notDue⟩ | ⟨due, remains, short, rfl⟩
    · have waiting : p.tvSec ≤ this.second slot := by
        by_contra overdue
        exact notDue ((mem_expired_iff kept clocked).mpr
          ⟨_, Int.not_le.mp overdue, slot, live, rfl⟩)
      rw [ticked.second_eq kept clocked live waiting]
      exact .inl ⟨⟨slot, live, rfl⟩, waiting⟩
    · rw [filed short due]
      rw [clocked.sizeOfTime_remain remains] at short ⊢
      exact .inr ⟨due, remains, by omega, by omega⟩
  · rintro (⟨⟨slot, live, rfl⟩, waiting⟩ | ⟨due, remains, short, rfl⟩)
    · refine ⟨slot, (ticked.live id slot).mpr (.inl ⟨live, fun due => ?_⟩),
        ticked.second_eq kept clocked live waiting⟩
      obtain ⟨expiry, overdue, held⟩ := (mem_expired_iff kept clocked).mp due
      have same := held.unique kept ⟨slot, live, rfl⟩
      omega
    · have fits : sizeOfTime (this.flow id).remain < 3600 := by
        rw [clocked.sizeOfTime_remain remains]
        omega
      refine ⟨_, (ticked.live id _).mpr (.inr ⟨due, remains, fits, rfl⟩), ?_⟩
      rw [filed fits due, clocked.sizeOfTime_remain remains]
      omega

/-- The flow is not touched by a tick before its time runs out. -/
theorem Ticked.wait (ticked : Ticked p this middle) (kept : this.Kept) (clocked : this.Clocked)
    (positive : 0 < p.tvSec) {id : ℕ} {until_ : ℤ} (held : this.Until id until_)
    (waiting : p.tvSec ≤ until_) : id ∉ this.expired p ∧ middle.Until id until_ ∧
      middle.flow id = this.flow id := by
  have notDue : id ∉ this.expired p := by
    intro due
    obtain ⟨expiry, overdue, before⟩ := (mem_expired_iff kept clocked).mp due
    have same := held.unique kept before
    omega
  refine ⟨notDue, (ticked.until_iff kept clocked positive).mpr (.inl ⟨held, waiting⟩), ?_⟩
  rw [ticked.flow, if_neg fun both => notDue both.1]

/-- An expired flow with time remaining is put again by the tick. -/
theorem Ticked.putAgain (ticked : Ticked p this middle) (kept : this.Kept) (clocked : this.Clocked)
    (positive : 0 < p.tvSec) {id : ℕ} {until_ : ℤ} (held : this.Until id until_)
    (overdue : until_ < p.tvSec) (remains : 0 < (this.flow id).remain)
    (small : (this.flow id).remain < 3600) :
    middle.Until id (p.tvSec + (this.flow id).remain) ∧
      middle.flow id = (this.flow id).refresh p.tvSec := by
  have due := (mem_expired_iff (p := p) kept clocked).mpr ⟨until_, overdue, held⟩
  refine ⟨(ticked.until_iff kept clocked positive).mpr (.inr ⟨due, remains, small, rfl⟩), ?_⟩
  rw [ticked.flow, if_pos ⟨due, remains⟩]

/-! ## Handling a packet -/

@[simp] theorem counted_until (p : Property) (id other : ℕ) (until_ : ℤ) :
    (this.counted p id).Until other until_ ↔ this.Until other until_ := Iff.rfl

theorem added_until (kept : this.Kept) (clocked : this.Clocked) (flow : Flow) {id : ℕ}
    {until_ : ℤ} : (this.added flow).Until id until_ ↔ this.Until id until_ ∨
      id = this.flowTable.built ∧ until_ = this.lastTs + 600 := by
  have second : ∀ slot, (this.added flow).second slot = this.second slot := by
    intro slot
    unfold second added
    rw [Pool.put_currTick, Pool.put_timeslotSize, Pool.build_table]
  unfold Until
  simp only [added_live kept.size, second, or_and_right, exists_or]
  apply or_congr_right
  constructor
  · rintro ⟨slot, ⟨rfl, rfl⟩, rfl⟩
    exact ⟨rfl, second_slotFor kept clocked (by decide)⟩
  · rintro ⟨rfl, rfl⟩
    exact ⟨_, ⟨rfl, rfl⟩, second_slotFor kept clocked (by decide)⟩

theorem Clocked.counted (clocked : this.Clocked) (p : Property) (id : ℕ) :
    (this.counted p id).Clocked := by
  refine ⟨clocked.lastTs_nonneg, clocked.lastTs_lt, clocked.currTick_le, clocked.idle,
    fun other => ?_, fun other => ?_⟩
  · rw [counted_flow]
    split
    · rw [Flow.refreshedAt_update]
      exact clocked.refreshed id
    · exact clocked.refreshed other
  · rw [counted_flow]
    split
    · rw [Flow.updatedAt_update]
      exact p.tvSec_upper
    · exact clocked.updated other

theorem Clocked.added (clocked : this.Clocked) (started : this.lastTs ≠ 0) {flow : Flow}
    (refreshed : 0 ≤ flow.refreshedAt) (updated : flow.updatedAt < 2 ^ 63) :
    (this.added flow).Clocked := by
  have flows : ∀ id, (this.added flow).flow id = flow ∨
      (this.added flow).flow id = this.flow id := by
    intro id
    by_cases self : id = this.flowTable.built
    · exact .inl (self ▸ added_flow_self flow this)
    · exact .inr (Function.update_of_ne self ..)
  refine ⟨clocked.lastTs_nonneg, clocked.lastTs_lt, ?_, fun first => (started first).elim,
    fun id => ?_, fun id => ?_⟩
  · have tick := clocked.currTick_le
    unfold ModFlow.added
    rwa [Pool.put_currTick]
  · rcases flows id with same | same
    · rw [same]
      exact refreshed
    · rw [same]
      exact clocked.refreshed id
  · rcases flows id with same | same
    · rw [same]
      exact updated
    · rw [same]
      exact clocked.updated id

theorem Handled.clocked {dns : ModDns} {eid : EvId} {events : List FlowEvent}
    (handled : Handled dns eid p middle events after) (clocked : middle.Clocked)
    (reached : p.tvSec ≤ middle.lastTs) (positive : 0 < p.tvSec) : after.Clocked := by
  cases handled with
  | skipped => exact clocked
  | known id slot ip live same => exact clocked.counted p id
  | fresh src dst ip srcIs dstIs unknown =>
      apply Clocked.counted
      exact clocked.added (by omega) (Int.le_of_lt positive) p.tvSec_upper

theorem Handled.lastTs {dns : ModDns} {eid : EvId} {events : List FlowEvent}
    (handled : Handled dns eid p middle events after) : after.lastTs = middle.lastTs := by
  cases handled <;> rfl

/-- The clock invariant holds after every run of packets with positive
timestamps. -/
theorem Clocked.run {evIpv4 evIpv6 : EvId} {inputs : List Input} {this : ModFlow}
    (positive : ∀ input ∈ inputs, 0 < input.p.tvSec)
    (reached : ((ModFlow.new evIpv4 evIpv6).run inputs).result = some this) : this.Clocked := by
  refine (run_induction (Kept.new evIpv4 evIpv6)
    (fun inputs _ this => (∀ input ∈ inputs, 0 < input.p.tvSec) → this.Clocked)
    (fun _ => Clocked.new evIpv4 evIpv6) (fun inputs input events this middle handling after kept
      ticked handled earlier positive => ?_) reached).2 positive
  have clocked := earlier fun other member => positive other (List.mem_append_left _ member)
  have now := positive input (List.mem_append_right _ List.mem_cons_self)
  have reached := ticked.lastTs_eq clocked now
  exact handled.clocked (ticked.clocked clocked now) (by omega) now

end ModFlow

end Devourer
