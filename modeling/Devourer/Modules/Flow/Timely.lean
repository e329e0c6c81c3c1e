import Devourer.Modules.Flow.Pacing

/-! # Calls that keep every flow for the timeout

The time remaining that an expired flow is put again for is the time from its
last refresh to its last update. Counted from the present, this reaches the end
of the timeout only if the last refresh lies a whole timeout back. A packet
counted in the second of a refresh leaves no time remaining at all, so the flow
must have been put for the whole timeout then. A call that meets both conditions
(`Timely`), and no other, keeps every flow of the table for the timeout after its
last packet (`covered_iff_timely`).
-/

namespace Devourer

/-- A flow without time remaining, which is logged when its time runs out, is kept
for the timeout after its last update. -/
def Flow.Lasts (until_ : ℤ) (flow : Flow) : Prop :=
  ¬ 0 < flow.remain → flow.updatedAt + ModFlow.flowTimeout ≤ until_

theorem Flow.lasts_iff {until_ : ℤ} {flow : Flow} : flow.Lasts until_ ↔
    (flow.updatedAt ≤ flow.refreshedAt → flow.updatedAt + ModFlow.flowTimeout ≤ until_) := by
  unfold Flow.Lasts
  rw [Flow.remain_pos, Int.not_lt]

namespace ModFlow

/-- The input is an IP packet with the key. -/
def Belongs (evIpv4 evIpv6 : EvId) (key : FlowKey) (input : Input) : Prop :=
  (input.eid = evIpv4 ∨ input.eid = evIpv6) ∧ keyOf input.p = key

instance (evIpv4 evIpv6 : EvId) (key : FlowKey) (input : Input) :
    Decidable (Belongs evIpv4 evIpv6 key input) :=
  inferInstanceAs (Decidable (_ ∧ _))

/-- Every flow of the table is kept for the timeout after its last update. -/
def Covered (this : ModFlow) : Prop :=
  ∀ id until_, this.Until id until_ → (this.flow id).Lasts until_

/-- **The condition of a timely call.** A flow that the call puts again was
refreshed a timeout ago, and a packet is counted in the second of a refresh only
if the flow was put for the whole timeout, be it by this call or by an earlier
one of the same second. -/
structure Timely (input : Input) (this : ModFlow) : Prop where
  again : ∀ id until_, this.Until id until_ → until_ < input.p.tvSec →
    0 < (this.flow id).remain → (this.flow id).refreshedAt + flowTimeout ≤ input.p.tvSec ∧
      (Belongs this.evIpv4 this.evIpv6 (this.flow id).flowKey input →
        (this.flow id).remain = flowTimeout)
  counted : ∀ id until_, this.Until id until_ → (this.flow id).refreshedAt = input.p.tvSec →
    Belongs this.evIpv4 this.evIpv6 (this.flow id).flowKey input →
      until_ = input.p.tvSec + flowTimeout

/-- It is enough to look at the entries of the table. -/
theorem timely_iff_live {input : Input} {this : ModFlow} :
    Timely input this ↔ ∀ entry ∈ this.flowTable.table.live,
      (this.second entry.2 < input.p.tvSec → 0 < (this.flow entry.1).remain →
        (this.flow entry.1).refreshedAt + flowTimeout ≤ input.p.tvSec ∧
          (Belongs this.evIpv4 this.evIpv6 (this.flow entry.1).flowKey input →
            (this.flow entry.1).remain = flowTimeout)) ∧
      ((this.flow entry.1).refreshedAt = input.p.tvSec →
        Belongs this.evIpv4 this.evIpv6 (this.flow entry.1).flowKey input →
          this.second entry.2 = input.p.tvSec + flowTimeout) := by
  constructor
  · rintro ⟨again, counted⟩ ⟨id, slot⟩ live
    exact ⟨again id _ ⟨slot, live, rfl⟩, counted id _ ⟨slot, live, rfl⟩⟩
  · intro entries
    constructor
    · rintro id until_ ⟨slot, live, rfl⟩
      exact (entries (id, slot) live).1
    · rintro id until_ ⟨slot, live, rfl⟩
      exact (entries (id, slot) live).2

instance (input : Input) (this : ModFlow) : Decidable (Timely input this) :=
  decidable_of_iff' _ timely_iff_live

variable {input : Input} {handling : List FlowEvent} {this middle after : ModFlow}

/-- Handling a packet keeps every held flow for the same time, and updates the one
with the key of the packet. -/
theorem Handled.held (handled : Handled input.dns input.eid input.p middle handling after)
    (kept : middle.Kept) (clocked : middle.Clocked) {id : ℕ} {until_ : ℤ}
    (held : middle.Until id until_) :
    after.Until id until_ ∧ after.flow id =
      if Belongs middle.evIpv4 middle.evIpv6 (middle.flow id).flowKey input then
        (middle.flow id).update input.p
      else middle.flow id := by
  have ⟨slot, live, _⟩ := held
  cases handled with
  | skipped notIp => exact ⟨held, (if_neg fun mine => notIp mine.1).symm⟩
  | known other slot' ip live' same =>
      refine ⟨held, ?_⟩
      rw [counted_flow]
      by_cases self : id = other
      · subst self
        rw [if_pos rfl, if_pos ⟨ip, same.symm⟩]
      · rw [if_neg self, if_neg]
        exact fun mine => self (kept.keyed _ _ _ _ live live' (mine.2.symm.trans same.symm))
  | fresh src dst ip srcIs dstIs unknown =>
      have known := kept.wf.live_lt live
      refine ⟨(added_until kept clocked _).mpr (.inl held), ?_⟩
      rw [counted_flow, if_neg (Nat.ne_of_lt known), added_flow_of_lt known, if_neg]
      exact fun mine => unknown id slot live mine.2.symm

/-- A flow that is held only after the packet is new. -/
theorem Handled.of_held (handled : Handled input.dns input.eid input.p middle handling after)
    (kept : middle.Kept) (clocked : middle.Clocked) {id : ℕ} {until_ : ℤ}
    (held : after.Until id until_) : middle.Until id until_ ∨
      (after.flow id).updatedAt = input.p.tvSec ∧ until_ = middle.lastTs + flowTimeout := by
  cases handled with
  | skipped => exact .inl held
  | known => exact .inl held
  | fresh src dst ip srcIs dstIs unknown =>
      rcases (added_until kept clocked _).mp held with before | ⟨rfl, rfl⟩
      · exact .inl before
      · refine .inr ⟨?_, rfl⟩
        rw [counted_flow, if_pos rfl, Flow.updatedAt_update]

/-- What becomes of the time of a held flow when the packet is handled. -/
theorem Handled.lasts_iff (handled : Handled input.dns input.eid input.p middle handling after)
    (kept : middle.Kept) (clocked : middle.Clocked) (punctual : middle.Punctual)
    (now : middle.lastTs = input.p.tvSec) {id : ℕ} {until_ : ℤ} (held : middle.Until id until_) :
    (after.flow id).Lasts until_ ↔
      if Belongs middle.evIpv4 middle.evIpv6 (middle.flow id).flowKey input then
        (middle.flow id).refreshedAt = input.p.tvSec → input.p.tvSec + flowTimeout ≤ until_
      else (middle.flow id).Lasts until_ := by
  have refreshed := (punctual id until_ held).2.1
  rw [(handled.held kept clocked held).2]
  split
  · rw [Flow.lasts_iff, Flow.updatedAt_update, Flow.refreshedAt_update]
    have same : input.p.tvSec ≤ (middle.flow id).refreshedAt ↔
        (middle.flow id).refreshedAt = input.p.tvSec := by
      omega
    rw [same]
  · rfl

/-- A flow that the tick puts again was last updated before the second of the
packet. -/
theorem Steady.putAgain {inputs : List Input} (steady : Steady inputs this)
    (ticked : Ticked input.p this middle) (positive : 0 < input.p.tvSec) {id : ℕ} {until_ : ℤ}
    (held : this.Until id until_) (overdue : until_ < input.p.tvSec)
    (remains : 0 < (this.flow id).remain) :
    middle.Until id (input.p.tvSec + (this.flow id).remain) ∧
      middle.flow id = (this.flow id).refresh input.p.tvSec ∧
      (this.flow id).updatedAt < input.p.tvSec ∧
      (this.flow id).remain = (this.flow id).updatedAt - (this.flow id).refreshedAt := by
  have small := steady.punctual.remain_le held
  have updated := (steady.punctual id until_ held).2.2
  have reached := held.lastTs_le
  obtain ⟨later, same⟩ := ticked.putAgain steady.kept steady.clocked positive held overdue remains
    (Int.lt_of_le_of_lt small (by decide))
  have order := Flow.remain_pos.mp remains
  exact ⟨later, same, by omega, if_pos (Int.le_of_lt order)⟩

/-- **A call keeps the flows for the timeout exactly when it is timely.** -/
theorem covered_iff_timely {inputs : List Input} (steady : Steady inputs this)
    (sorted : Sorted (inputs ++ [input])) (positive : 0 < input.p.tvSec)
    (covered : this.Covered) (ticked : Ticked input.p this middle)
    (handled : Handled input.dns input.eid input.p middle handling after) :
    after.Covered ↔ Timely input this := by
  obtain ⟨forward, now, clocked, -⟩ := steady.step sorted positive ticked handled
  have kept := ticked.kept steady.kept
  have punctual := steady.punctual.tick steady.kept steady.clocked ticked positive forward
  constructor
  · intro covered'
    have lasts := fun {id until_} held => (handled.lasts_iff kept clocked punctual now held).mp
      (covered' id until_ (handled.held kept clocked held).1)
    constructor
    · intro id until_ held overdue remains
      obtain ⟨later, same, updated, remain⟩ := steady.putAgain ticked positive held overdue remains
      have small := steady.punctual.remain_le held
      have times := lasts later
      rw [same, ticked.evIpv4, ticked.evIpv6, Flow.lasts_iff] at times
      split at times
      · have whole := times rfl
        exact ⟨by omega, fun _ => by omega⟩
      · rename_i other
        have whole := times (Int.le_of_lt updated)
        rw [Flow.updatedAt_refresh] at whole
        exact ⟨by omega, fun mine => (other mine).elim⟩
    · intro id until_ held refreshed mine
      obtain ⟨late, before, -⟩ := steady.punctual id until_ held
      have reached := held.lastTs_le
      obtain ⟨-, stays, same⟩ := ticked.wait steady.kept steady.clocked positive held (by omega)
      have times := lasts stays
      rw [same, ticked.evIpv4, ticked.evIpv6, if_pos mine] at times
      have whole := times refreshed
      omega
  · intro timely id until_ held
    rcases handled.of_held kept clocked held with before | ⟨updated, rfl⟩
    · rw [handled.lasts_iff kept clocked punctual now before, ticked.evIpv4, ticked.evIpv6]
      rcases (ticked.until_iff steady.kept steady.clocked positive).mp before with
        ⟨before, waiting⟩ | ⟨due, remains, -, rfl⟩
      · obtain ⟨-, -, same⟩ := ticked.wait steady.kept steady.clocked positive before waiting
        rw [same]
        split
        · rename_i mine
          exact fun refreshed => Int.le_of_eq (timely.counted id until_ before refreshed mine).symm
        · exact covered id until_ before
      · obtain ⟨expiry, overdue, before⟩ := (mem_expired_iff steady.kept steady.clocked).mp due
        obtain ⟨-, same, updated, remain⟩ :=
          steady.putAgain ticked positive before overdue remains
        obtain ⟨long, whole⟩ := timely.again id expiry before overdue remains
        rw [same, Flow.lasts_iff, Flow.updatedAt_refresh]
        split
        · rename_i mine
          have full := whole mine
          exact fun _ => by omega
        · exact fun _ => by omega
    · exact fun _ => by omega

end ModFlow

end Devourer
