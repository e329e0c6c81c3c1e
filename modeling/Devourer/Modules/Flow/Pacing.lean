import Devourer.Modules.Flow.Clock

/-! # Packets in the order of their timestamps

When timestamps do not step backwards, the clock always shows the second of the
last packet, a flow is refreshed no later than it is updated next, and no flow is
ever kept for more than `flow_timeout_` after its last refresh (`Punctual`).
-/

namespace Devourer

namespace ModFlow

/-- The timestamps do not step backwards. -/
def Sorted (inputs : List Input) : Prop :=
  inputs.Pairwise fun earlier later => earlier.p.tvSec ≤ later.p.tvSec

instance : DecidablePred Sorted := fun inputs =>
  inferInstanceAs (Decidable (inputs.Pairwise _))

/-- Fewer packets are sorted as well. -/
theorem Sorted.of_prefix {calls inputs : List Input} (sorted : Sorted inputs)
    (front : calls <+: inputs) : Sorted calls := List.Pairwise.sublist front.sublist sorted

/-- The clock shows the latest second seen. -/
structure Paced (inputs : List Input) (this : ModFlow) : Prop where
  latest : ∀ input ∈ inputs, input.p.tvSec ≤ this.lastTs
  shown : this.lastTs = 0 ∨ ∃ input ∈ inputs, input.p.tvSec = this.lastTs

/-- No second has been seen. -/
theorem Paced.new (evIpv4 evIpv6 : EvId) : Paced [] (ModFlow.new evIpv4 evIpv6) :=
  ⟨fun _ => nofun, .inl rfl⟩

variable {p : Property} {this middle after : ModFlow}

/-- A packet that is later than all others moves the clock, and no other does. -/
theorem Paced.step {inputs : List Input} {input : Input} {events : List FlowEvent}
    (paced : Paced inputs this) (clocked : this.Clocked) (positive : 0 < input.p.tvSec)
    (ticked : Ticked input.p this middle)
    (handled : Handled input.dns input.eid input.p middle events after) :
    Paced (inputs ++ [input]) after := by
  have moved : after.lastTs = max this.lastTs input.p.tvSec :=
    handled.lastTs.trans (ticked.lastTs_eq clocked positive)
  refine ⟨fun other member => ?_, ?_⟩
  · rcases List.mem_append.mp member with earlier | now
    · have before := paced.latest other earlier
      omega
    · rw [List.mem_singleton.mp now]
      omega
  · by_cases forward : this.lastTs ≤ input.p.tvSec
    · exact .inr ⟨input, List.mem_append_right _ List.mem_cons_self, by omega⟩
    · rcases paced.shown with first | ⟨other, member, same⟩
      · omega
      · exact .inr ⟨other, List.mem_append_left _ member, by omega⟩

/-- The next packet of a sorted sequence does not lie in the past. -/
theorem Paced.forward {inputs : List Input} {input : Input} (paced : Paced inputs this)
    (sorted : Sorted (inputs ++ [input])) (positive : 0 < input.p.tvSec) :
    this.lastTs ≤ input.p.tvSec := by
  rcases paced.shown with first | ⟨other, member, same⟩
  · omega
  · have order := (List.pairwise_append.mp sorted).2.2 other member input List.mem_cons_self
    omega

/-- After a sorted sequence the clock shows the second of its last packet. -/
theorem Paced.lastTs_eq {inputs : List Input} {input : Input}
    (paced : Paced (inputs ++ [input]) this) (sorted : Sorted (inputs ++ [input]))
    (positive : 0 < input.p.tvSec) : this.lastTs = input.p.tvSec := by
  have reached := paced.latest input (List.mem_append_right _ List.mem_cons_self)
  rcases paced.shown with first | ⟨other, member, same⟩
  · omega
  rcases List.mem_append.mp member with earlier | now
  · have order := (List.pairwise_append.mp sorted).2.2 other earlier input List.mem_cons_self
    omega
  · rw [← same, List.mem_singleton.mp now]

/-- Every live flow was refreshed and updated in the past, and is kept for at most
600 seconds after its refresh. -/
def Punctual (this : ModFlow) : Prop :=
  ∀ id until_, this.Until id until_ → until_ ≤ (this.flow id).refreshedAt + flowTimeout ∧
    (this.flow id).refreshedAt ≤ this.lastTs ∧ (this.flow id).updatedAt ≤ this.lastTs

/-- There is no live flow. -/
theorem Punctual.new (evIpv4 evIpv6 : EvId) : (ModFlow.new evIpv4 evIpv6).Punctual := by
  rintro id until_ ⟨slot, live, -⟩
  cases live

/-- **The time remaining of a flow is at most 600 seconds.** -/
theorem Punctual.remain_le (punctual : this.Punctual) {id : ℕ} {until_ : ℤ}
    (held : this.Until id until_) : (this.flow id).remain ≤ flowTimeout := by
  obtain ⟨late, -, updated⟩ := punctual id until_ held
  have reached := held.lastTs_le
  unfold flowTimeout at late ⊢
  unfold Flow.remain
  split <;> omega

/-- A flow is put again for what remained of it, from the present on. -/
theorem Punctual.tick (punctual : this.Punctual) (kept : this.Kept) (clocked : this.Clocked)
    (ticked : Ticked p this middle) (positive : 0 < p.tvSec) (forward : this.lastTs ≤ p.tvSec) :
    middle.Punctual := by
  have now := ticked.lastTs_eq clocked positive
  intro id until_ held
  rcases (ticked.until_iff kept clocked positive).mp held with ⟨before, waiting⟩ |
    ⟨due, remains, -, rfl⟩
  · have notDue : id ∉ this.expired p := by
      intro due
      obtain ⟨expiry, overdue, before'⟩ := (mem_expired_iff kept clocked).mp due
      have same := before.unique kept before'
      omega
    obtain ⟨late, refreshed, updated⟩ := punctual id until_ before
    rw [ticked.flow, if_neg fun both => notDue both.1]
    exact ⟨late, by omega, by omega⟩
  · obtain ⟨expiry, overdue, before⟩ := (mem_expired_iff kept clocked).mp due
    have small := punctual.remain_le before
    obtain ⟨-, -, updated⟩ := punctual id expiry before
    rw [ticked.flow, if_pos ⟨due, remains⟩, Flow.refreshedAt_refresh, Flow.updatedAt_refresh]
    exact ⟨by omega, by omega, by omega⟩

/-- A new flow is kept from the present on. -/
theorem Punctual.handle {dns : ModDns} {eid : EvId} {events : List FlowEvent}
    (punctual : middle.Punctual) (kept : middle.Kept) (clocked : middle.Clocked)
    (handled : Handled dns eid p middle events after) (now : middle.lastTs = p.tvSec) :
    after.Punctual := by
  -- counting a packet only moves the time of the last update to the present
  have count : ∀ {state : ModFlow} (id : ℕ), state.Punctual → state.lastTs = p.tvSec →
      (state.counted p id).Punctual := by
    intro state id punctual now other until_ held
    obtain ⟨late, refreshed, updated⟩ := punctual other until_ held
    rw [counted_flow]
    split
    · rename_i self
      subst self
      rw [Flow.refreshedAt_update, Flow.updatedAt_update]
      exact ⟨late, refreshed, Int.le_of_eq now.symm⟩
    · exact ⟨late, refreshed, updated⟩
  cases handled with
  | skipped => exact punctual
  | known id slot ip live same => exact count id punctual now
  | fresh src dst ip srcIs dstIs unknown =>
      refine count _ (fun id until_ held => ?_) now
      rcases (added_until kept clocked _).mp held with before | ⟨rfl, rfl⟩
      · have known : id < middle.flowTable.built := by
          obtain ⟨slot, live, -⟩ := before
          exact kept.wf.live_lt live
        rw [added_flow_of_lt known]
        exact punctual id until_ before
      · rw [added_flow_self]
        exact ⟨by rw [now]; exact Int.le_refl _, Int.le_of_eq now.symm, Int.le_of_eq now.symm⟩

/-- What holds along a run of packets with positive timestamps that do not step
backwards. -/
structure Steady (inputs : List Input) (this : ModFlow) : Prop where
  kept : this.Kept
  clocked : this.Clocked
  paced : Paced inputs this
  punctual : this.Punctual

/-- A run begins with nothing. -/
theorem Steady.new (evIpv4 evIpv6 : EvId) : Steady [] (ModFlow.new evIpv4 evIpv6) :=
  ⟨Kept.new evIpv4 evIpv6, Clocked.new evIpv4 evIpv6, Paced.new evIpv4 evIpv6,
    Punctual.new evIpv4 evIpv6⟩

/-- What the next call of such a run finds and leaves. -/
theorem Steady.step {inputs : List Input} {input : Input} {events : List FlowEvent}
    (steady : Steady inputs this) (sorted : Sorted (inputs ++ [input]))
    (positive : 0 < input.p.tvSec) (ticked : Ticked input.p this middle)
    (handled : Handled input.dns input.eid input.p middle events after) :
    this.lastTs ≤ input.p.tvSec ∧ middle.lastTs = input.p.tvSec ∧ middle.Clocked ∧
      Steady (inputs ++ [input]) after := by
  have forward := steady.paced.forward sorted positive
  have now : middle.lastTs = input.p.tvSec := by
    have moved := ticked.lastTs_eq steady.clocked positive
    omega
  have kept := ticked.kept steady.kept
  have clocked := ticked.clocked steady.clocked positive
  exact ⟨forward, now, clocked, handled.kept kept,
    handled.clocked clocked (Int.le_of_eq now.symm) positive,
    steady.paced.step steady.clocked positive ticked handled,
    (steady.punctual.tick steady.kept steady.clocked ticked positive forward).handle kept clocked
      handled now⟩

end ModFlow

end Devourer
