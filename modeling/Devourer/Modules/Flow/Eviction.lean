import Devourer.Modules.Flow

/-! # What the eviction loop does

The loop of `ModFlow::recv` pops the expired flows one after the other, and a
turn touches only the flow it popped. What the loop does to a flow can therefore
be read off the state in which the loop starts (`Evicted`, `turnEvents`): a flow
with packets since its last refresh is filed under a new timeslot, and any other
is logged. The loop stops early only at a flow without a direction.
-/

namespace Devourer

namespace Flow

theorem buildMessage_eq_none {flow : Flow} : flow.buildMessage = none ↔ flow.initDir = .nil := by
  unfold buildMessage
  cases flow.initDir <;> simp

@[simp] theorem flowKey_new (p : Property) (src dst : String) :
    (Flow.new p src dst).flowKey = ModFlow.keyOf p := rfl

@[simp] theorem flowKey_update (p : Property) (flow : Flow) :
    (flow.update p).flowKey = flow.flowKey := by
  unfold update
  cases p.dir <;> rfl

@[simp] theorem initDir_update (p : Property) (flow : Flow) :
    (flow.update p).initDir = flow.initDir := by
  unfold update
  cases p.dir <;> rfl

@[simp] theorem updatedAt_update (p : Property) (flow : Flow) :
    (flow.update p).updatedAt = p.tvSec := by
  unfold update
  cases p.dir <;> rfl

@[simp] theorem refreshedAt_update (p : Property) (flow : Flow) :
    (flow.update p).refreshedAt = flow.refreshedAt := by
  unfold update
  cases p.dir <;> rfl

@[simp] theorem hvHex_update (p : Property) (flow : Flow) :
    (flow.update p).hvHex = flow.hvHex := by
  unfold update
  cases p.dir <;> rfl

@[simp] theorem initDir_refresh (tvSec : ℤ) (flow : Flow) :
    (flow.refresh tvSec).initDir = flow.initDir := rfl

@[simp] theorem updatedAt_refresh (tvSec : ℤ) (flow : Flow) :
    (flow.refresh tvSec).updatedAt = flow.updatedAt := rfl

@[simp] theorem refreshedAt_refresh (tvSec : ℤ) (flow : Flow) :
    (flow.refresh tvSec).refreshedAt = tvSec := rfl

/-- A flow has time remaining when it was updated after its last refresh. -/
theorem remain_pos {flow : Flow} : 0 < flow.remain ↔ flow.refreshedAt < flow.updatedAt := by
  unfold remain
  split <;> omega

end Flow

namespace ModFlow

/-- The flow with the given number. -/
abbrev flow (this : ModFlow) (id : ℕ) : Flow := this.flowTable.object id

/-- The loop runs into the assertion of `build_message` at this flow. -/
def Stuck (flow : Flow) : Prop := ¬ 0 < flow.remain ∧ flow.buildMessage = none

/-- What a turn of the eviction loop reports about the flow. -/
def turnEvents (timeslots id : ℕ) (flow : Flow) : List FlowEvent :=
  if 0 < flow.remain then
    [.put id (sizeOfTime flow.remain) (decide (sizeOfTime flow.remain < timeslots))]
  else
    match flow.buildMessage with
    | some msg => [.emitLog id flow.flowKey msg]
    | none => []

/-- A turn of the eviction loop puts or logs, and does nothing else. -/
theorem turnEvents_cases {timeslots id : ℕ} {flow : Flow} {event : FlowEvent}
    (member : event ∈ turnEvents timeslots id flow) :
    (0 < flow.remain ∧ ∃ taken, event = .put id (sizeOfTime flow.remain) taken) ∨
      ¬ 0 < flow.remain ∧ ∃ msg, flow.buildMessage = some msg ∧
        event = .emitLog id flow.flowKey msg := by
  unfold turnEvents at member
  split at member
  · rename_i remains
    exact .inl ⟨remains, _, List.mem_singleton.mp member⟩
  · rename_i overdue
    split at member
    · rename_i msg built
      exact .inr ⟨overdue, msg, built, List.mem_singleton.mp member⟩
    · cases member

/-- The event is a `flow.log` for the flow. -/
def isLog (id : ℕ) : FlowEvent → Bool
  | .emitLog other _ _ => other = id
  | _ => false

/-- How often the flow was logged. -/
def logs (id : ℕ) (events : List FlowEvent) : ℕ := events.countP (isLog id)

theorem logs_append (id : ℕ) (first second : List FlowEvent) :
    logs id (first ++ second) = logs id first + logs id second := List.countP_append ..

theorem logs_turnEvents (timeslots id other : ℕ) (flow : Flow) :
    logs id (turnEvents timeslots other flow) =
      if other = id ∧ ¬ 0 < flow.remain ∧ flow.buildMessage.isSome = true then 1 else 0 := by
  unfold turnEvents
  by_cases remains : 0 < flow.remain
  · simp [remains, logs, isLog]
  · cases flow.buildMessage with
    | none => simp [remains, logs]
    | some msg => by_cases self : other = id <;> simp [remains, logs, isLog, self]

/-- The state after a turn of the eviction loop. -/
def turn (p : Property) (id : ℕ) (this : ModFlow) : ModFlow :=
  if 0 < (this.flow id).remain then
    let flowTable := (this.flowTable.put (sizeOfTime (this.flow id).remain) id).2
    { this with flowTable := flowTable.modify id (Flow.refresh p.tvSec) }
  else this

theorem expire_of_not_stuck {p : Property} {id : ℕ} {this : ModFlow}
    (free : ¬ Stuck (this.flow id)) : expire p id this =
      ⟨turnEvents this.flowTable.table.timeslotSize id (this.flow id), some (turn p id this)⟩ := by
  unfold expire turnEvents turn
  by_cases remains : 0 < (this.flow id).remain
  · simp only [remains, ↓reduceIte]
    rw [Pool.put_accepted]
    rfl
  · cases built : this.flowTable.object id |>.buildMessage with
    | none => exact (free ⟨remains, built⟩).elim
    | some msg =>
        simp only [remains, ↓reduceIte, built]
        rfl

theorem expire_of_stuck {p : Property} {id : ℕ} {this : ModFlow} (stuck : Stuck (this.flow id)) :
    expire p id this = ⟨[], none⟩ := by
  unfold expire
  simp only [stuck.1, ↓reduceIte, stuck.2]
  rfl

/-- What the turns of the flows `ids` did to the state `before`. -/
structure Turned (p : Property) (ids : List ℕ) (before after : ModFlow) : Prop where
  size : after.flowTable.table.timeslotSize = before.flowTable.table.timeslotSize
  currTick : after.flowTable.table.currTick = before.flowTable.table.currTick
  built : after.flowTable.built = before.flowTable.built
  flow : ∀ id, after.flow id =
    if id ∈ ids ∧ 0 < (before.flow id).remain then (before.flow id).refresh p.tvSec
    else before.flow id
  live : ∀ id slot, after.flowTable.Live id slot ↔ before.flowTable.Live id slot ∨
    id ∈ ids ∧ 0 < (before.flow id).remain ∧
      sizeOfTime (before.flow id).remain < before.flowTable.table.timeslotSize ∧
      slot = before.flowTable.table.slotFor (sizeOfTime (before.flow id).remain)
  evIpv4 : after.evIpv4 = before.evIpv4
  evIpv6 : after.evIpv6 = before.evIpv6
  lastTs : after.lastTs = before.lastTs
  updateMap : after.updateMap = before.updateMap

theorem Turned.refl (p : Property) (this : ModFlow) : Turned p [] this this where
  size := rfl
  currTick := rfl
  built := rfl
  flow id := by simp only [List.not_mem_nil, false_and, ↓reduceIte]
  live id slot := by simp only [List.not_mem_nil, false_and, or_false]
  evIpv4 := rfl
  evIpv6 := rfl
  lastTs := rfl
  updateMap := rfl

/-- One turn. -/
theorem turned_turn (p : Property) (id : ℕ) (this : ModFlow) :
    Turned p [id] this (turn p id this) := by
  unfold turn
  by_cases remains : 0 < (this.flow id).remain
  · simp only [remains, ↓reduceIte]
    refine ⟨Pool.put_timeslotSize _ _, Pool.put_currTick _ _, rfl, fun other => ?_,
      fun other slot => ?_, rfl, rfl, rfl, rfl⟩
    · by_cases self : other = id
      · subst self
        simp only [List.mem_singleton, remains, and_self, ↓reduceIte]
        exact Pool.modify_object_self ..
      · simp only [List.mem_singleton, self, false_and, ↓reduceIte]
        exact Pool.modify_object_of_ne self _
    · rw [Pool.live_modify, Pool.live_put_iff, List.mem_singleton]
      apply or_congr_right
      constructor
      · rintro ⟨short, rfl, filed⟩
        exact ⟨rfl, remains, short, filed⟩
      · rintro ⟨rfl, -, short, filed⟩
        exact ⟨short, rfl, filed⟩
  · simp only [remains, ↓reduceIte]
    refine ⟨rfl, rfl, rfl, fun other => ?_, fun other slot => ?_, rfl, rfl, rfl, rfl⟩
    · rw [if_neg]
      rintro ⟨self, remains'⟩
      rw [List.mem_singleton] at self
      exact remains (self ▸ remains')
    · constructor
      · exact .inl
      · rintro (live | ⟨self, remains', -⟩)
        · exact live
        · rw [List.mem_singleton] at self
          exact (remains (self ▸ remains')).elim

/-- The turns of different flows do not interfere. -/
theorem Turned.trans {p : Property} {id : ℕ} {rest : List ℕ} {before middle after : ModFlow}
    (first : Turned p [id] before middle) (second : Turned p rest middle after)
    (off : id ∉ rest) : Turned p (id :: rest) before after := by
  have later : ∀ other ∈ rest, middle.flow other = before.flow other := by
    intro other member
    rw [first.flow, if_neg]
    rintro ⟨self, -⟩
    rw [List.mem_singleton] at self
    exact off (self ▸ member)
  have slot : ∀ ttl, middle.flowTable.table.slotFor ttl = before.flowTable.table.slotFor ttl := by
    intro ttl
    rw [Table.slotFor, first.currTick, first.size]
    rfl
  refine ⟨second.size.trans first.size, second.currTick.trans first.currTick,
    second.built.trans first.built, fun other => ?_, fun other slotOf => ?_,
    second.evIpv4.trans first.evIpv4, second.evIpv6.trans first.evIpv6,
    second.lastTs.trans first.lastTs, second.updateMap.trans first.updateMap⟩
  · rw [second.flow]
    by_cases member : other ∈ rest
    · rw [later other member]
      simp only [member, true_and, List.mem_cons, or_true]
    · rw [first.flow]
      simp only [member, false_and, ↓reduceIte, List.mem_cons, List.not_mem_nil, or_false]
  · rw [second.live, first.live, first.size, or_assoc]
    apply or_congr_right
    by_cases member : other ∈ rest
    · have notFirst : other ≠ id := fun self => off (self ▸ member)
      rw [later other member, slot]
      simp only [notFirst, List.not_mem_nil, false_and, false_or, List.mem_cons, member, true_and]
    · simp only [List.not_mem_nil, member, false_and, or_false, List.mem_cons]

/-- The state after the pool has been popped, with the given rest. -/
def popped (this : ModFlow) (rest : List ℕ) : ModFlow :=
  { this with flowTable := { this.flowTable with
      table := { this.flowTable.table with exp := rest } } }

theorem evict_of_nil (p : Property) (fuel : ℕ) {this : ModFlow}
    (exp : this.flowTable.table.exp = []) : evict p (fuel + 1) this = pure this := by
  simp only [evict, Pool.pop, Table.pop, exp]

theorem evict_of_cons (p : Property) (fuel : ℕ) {this : ModFlow} {id : ℕ} {rest : List ℕ}
    (exp : this.flowTable.table.exp = id :: rest) :
    evict p (fuel + 1) this = expire p id (this.popped rest) >>= evict p fuel := by
  simp only [evict, Pool.pop, Table.pop, exp]
  rfl

/-- A turn keeps the pool well formed. -/
theorem turn_wf {p : Property} {id : ℕ} {rest : List ℕ} {this : ModFlow}
    (wf : this.flowTable.WF) (exp : this.flowTable.table.exp = id :: rest) :
    (turn p id (this.popped rest)).flowTable.WF ∧
      (turn p id (this.popped rest)).flowTable.table.exp = rest := by
  have perm : this.flowTable.table.nodes.Perm
      (id :: (this.popped rest).flowTable.table.nodes) := by
    rw [Table.nodes, exp]
    exact List.perm_middle
  have nodup := List.nodup_cons.mp (perm.nodup_iff.mp wf.table.nodup)
  have known : id < this.flowTable.built := wf.below id (perm.mem_iff.mpr List.mem_cons_self)
  have smaller : (this.popped rest).flowTable.WF :=
    ⟨⟨nodup.2, wf.table.inside⟩, fun other member =>
      wf.below other (perm.mem_iff.mpr (List.mem_cons_of_mem _ member))⟩
  unfold turn
  split
  · exact ⟨(smaller.put nodup.1 known _).modify _ _, Pool.put_exp _ _⟩
  · exact ⟨smaller, rfl⟩

/-- **The eviction loop.** Given enough fuel the loop either ends, having dealt
with every expired flow, or stops at a flow without a direction; either way it
reports nothing that the turns of the expired flows do not report. -/
theorem evict_spec (p : Property) {fuel : ℕ} {this : ModFlow} (wf : this.flowTable.WF)
    (enough : this.flowTable.table.exp.length < fuel) :
    (∀ event ∈ (evict p fuel this).events, ∃ id ∈ this.flowTable.table.exp,
      event ∈ turnEvents this.flowTable.table.timeslotSize id (this.flow id)) ∧
    ((∃ id ∈ this.flowTable.table.exp, Stuck (this.flow id)) ∧ (evict p fuel this).result = none ∨
      (∀ id ∈ this.flowTable.table.exp, ¬ Stuck (this.flow id)) ∧
      (evict p fuel this).events = this.flowTable.table.exp.flatMap (fun id =>
        turnEvents this.flowTable.table.timeslotSize id (this.flow id)) ∧
      ∃ after, (evict p fuel this).result = some after ∧
        Turned p this.flowTable.table.exp this after ∧ after.flowTable.WF ∧
          after.flowTable.table.exp = []) := by
  obtain ⟨ids, exp⟩ : ∃ ids, this.flowTable.table.exp = ids := ⟨_, rfl⟩
  induction ids generalizing fuel this with
  | nil =>
      obtain ⟨fuel, rfl⟩ := Nat.exists_eq_succ_of_ne_zero (Nat.ne_zero_of_lt enough)
      rw [evict_of_nil p fuel exp, exp]
      exact ⟨List.forall_mem_nil _,
        .inr ⟨List.forall_mem_nil _, rfl, this, rfl, Turned.refl p this, wf, exp⟩⟩
  | cons id rest ih =>
      obtain ⟨fuel, rfl⟩ := Nat.exists_eq_succ_of_ne_zero (Nat.ne_zero_of_lt enough)
      have off : id ∉ rest := by
        have nodup := wf.table.nodup
        rw [Table.nodes, exp] at nodup
        exact (List.nodup_cons.mp (List.nodup_append.mp nodup).2.1).1
      rw [evict_of_cons p fuel exp, exp]
      by_cases stuck : Stuck (this.flow id)
      · have aborted : expire p id (this.popped rest) = ⟨[], none⟩ := expire_of_stuck stuck
        rw [aborted, Exec.bind_of_abort rfl]
        exact ⟨List.forall_mem_nil _, .inl ⟨⟨id, List.mem_cons_self, stuck⟩, rfl⟩⟩
      have turned := turned_turn p id (this.popped rest)
      obtain ⟨wf', exp'⟩ := turn_wf (p := p) wf exp
      have returned : expire p id (this.popped rest) =
          ⟨turnEvents this.flowTable.table.timeslotSize id (this.flow id),
            some (turn p id (this.popped rest))⟩ := expire_of_not_stuck stuck
      rw [returned, Exec.bind_of_result rfl]
      -- a turn leaves the flows that are still to come as they were
      have later : ∀ other ∈ rest, (turn p id (this.popped rest)).flow other = this.flow other := by
        intro other member
        rw [turned.flow, if_neg]
        · rfl
        · rintro ⟨self, -⟩
          rw [List.mem_singleton] at self
          exact off (self ▸ member)
      have short : (turn p id (this.popped rest)).flowTable.table.exp.length < fuel := by
        rw [exp']
        rw [exp, List.length_cons] at enough
        omega
      obtain ⟨told, ends⟩ := ih wf' short exp'
      rw [turned.size, exp'] at told ends
      refine ⟨fun event member => ?_, ?_⟩
      · rcases List.mem_append.mp member with now | after
        · exact ⟨id, List.mem_cons_self, now⟩
        · obtain ⟨other, inRest, told⟩ := told event after
          rw [later other inRest] at told
          exact ⟨other, List.mem_cons_of_mem _ inRest, told⟩
      rcases ends with ⟨⟨other, inRest, stuckThere⟩, aborted⟩ |
        ⟨free, events, after, ended, evicted, wfAfter, emptied⟩
      · rw [later other inRest] at stuckThere
        exact .inl ⟨⟨other, List.mem_cons_of_mem _ inRest, stuckThere⟩, aborted⟩
      · refine .inr ⟨fun other member => ?_, ?_, after, ended, ?_, wfAfter, emptied⟩
        · rcases List.mem_cons.mp member with rfl | inRest
          · exact stuck
          · exact later other inRest ▸ free other inRest
        · rw [List.flatMap_cons, events]
          apply congrArg (turnEvents _ id (this.flow id) ++ ·)
          apply List.flatMap_congr
          intro other inRest
          rw [later other inRest]
          rfl
        · -- popping changes nothing that `Turned` speaks of
          have whole := turned.trans evicted off
          exact ⟨whole.size, whole.currTick, whole.built, whole.flow, whole.live, whole.evIpv4,
            whole.evIpv6, whole.lastTs, whole.updateMap⟩

end ModFlow

end Devourer
