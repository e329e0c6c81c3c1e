import Devourer.Foundation.Wheel
import Devourer.LRUHash.Table
import Mathlib.Logic.Function.Basic

/-! # A table with the objects its nodes are

A module keeps its records in a table of its own and reaches them through the
pointers the table returns. A `Pool` is such a table together with the objects,
numbered in the order in which they were built; the number stands for the
pointer. The objects carry the virtual functions the table calls.
-/

namespace Devourer

open Function

variable {α κ : Type}

/-- A table and the objects built for it. -/
structure Pool (α : Type) where
  table : Table ℕ
  object : ℕ → α
  built : ℕ

namespace Pool

/-- A fresh table; no object has been built. -/
def new [Inhabited α] (timeslotSize : ℕ) : Pool α := ⟨.new timeslotSize, fun _ => default, 0⟩

/-- The virtual functions of the nodes, from those of the objects. -/
def nodeVirt (virt : Virtual α κ) (pool : Pool α) : Virtual ℕ κ where
  hash id := virt.hash (pool.object id)
  matches? id key := virt.matches? (pool.object id) key

def get (virt : Virtual α κ) (hv : UInt64) (key : κ) (pool : Pool α) : Option ℕ :=
  pool.table.get (pool.nodeVirt virt) hv key

/-- Build one more object; its number is `built` before. -/
def build (object : α) (pool : Pool α) : Pool α :=
  { pool with object := update pool.object pool.built object, built := pool.built + 1 }

/-- Change an object in place. -/
def modify (id : ℕ) (change : α → α) (pool : Pool α) : Pool α :=
  { pool with object := update pool.object id (change (pool.object id)) }

def put (tick id : ℕ) (pool : Pool α) : Bool × Pool α :=
  match pool.table.put tick id with
  | (taken, table) => (taken, { pool with table := table })

def prog (tick : ℕ) (pool : Pool α) : Pool α := { pool with table := pool.table.prog tick }

def pop (pool : Pool α) : Option ℕ × Pool α :=
  match pool.table.pop with
  | (id, table) => (id, { pool with table := table })

/-- The object is live, filed under the timeslot. -/
def Live (pool : Pool α) (id slot : ℕ) : Prop := (id, slot) ∈ pool.table.live

/-- The tick through which an object filed under the timeslot stays live. -/
def deadline (pool : Pool α) (slot : ℕ) : ℕ :=
  pool.table.currTick + Wheel.left pool.table.timeslotSize pool.table.currTick slot

/-- The table is well formed and all its nodes have been built. -/
structure WF (pool : Pool α) : Prop where
  table : pool.table.WF
  below : ∀ id ∈ pool.table.nodes, id < pool.built

variable {pool : Pool α}

theorem WF.new [Inhabited α] (timeslotSize : ℕ) : (new timeslotSize : Pool α).WF :=
  ⟨Table.new_wf timeslotSize, nofun⟩

theorem Live.mem_nodes {id slot : ℕ} (live : pool.Live id slot) : id ∈ pool.table.nodes :=
  List.mem_append_left _ (List.mem_map_of_mem live)

theorem WF.live_lt (wf : pool.WF) {id slot : ℕ} (live : pool.Live id slot) : id < pool.built :=
  wf.below id live.mem_nodes

theorem WF.slot_lt (wf : pool.WF) {id slot : ℕ} (live : pool.Live id slot) :
    slot < pool.table.timeslotSize := wf.table.inside (id, slot) live

/-! ## Objects -/

@[simp] theorem modify_object_self (id : ℕ) (change : α → α) :
    (pool.modify id change).object id = change (pool.object id) := update_self ..

theorem modify_object_of_ne {id other : ℕ} (ne : other ≠ id) (change : α → α) :
    (pool.modify id change).object other = pool.object other := update_of_ne ne ..

/-- A change that leaves what is read of an object leaves it for all objects. -/
theorem modify_read {β : Type} (read : α → β) (change : α → α)
    (fixed : ∀ object, read (change object) = read object) (id other : ℕ) :
    read ((pool.modify id change).object other) = read (pool.object other) := by
  by_cases self : other = id
  · rw [self, modify_object_self, fixed]
  · rw [modify_object_of_ne self]

@[simp] theorem build_table (object : α) : (pool.build object).table = pool.table := rfl

@[simp] theorem build_object_self (object : α) :
    (pool.build object).object pool.built = object := update_self ..

theorem build_object_of_lt {id : ℕ} (earlier : id < pool.built) (object : α) :
    (pool.build object).object id = pool.object id := update_of_ne (Nat.ne_of_lt earlier) ..

theorem WF.modify (wf : pool.WF) (id : ℕ) (change : α → α) : (pool.modify id change).WF :=
  ⟨wf.table, wf.below⟩

theorem WF.build (wf : pool.WF) (object : α) : (pool.build object).WF :=
  ⟨wf.table, fun id member => Nat.lt_succ_of_lt (wf.below id member)⟩

theorem WF.built_not_mem (wf : pool.WF) : pool.built ∉ pool.table.nodes := fun member =>
  Nat.lt_irrefl _ (wf.below _ member)

/-! ## The table -/

@[simp] theorem put_object (tick id : ℕ) : (pool.put tick id).2.object = pool.object := rfl

@[simp] theorem put_timeslotSize (tick id : ℕ) :
    (pool.put tick id).2.table.timeslotSize = pool.table.timeslotSize := by
  change (pool.table.put tick id).2.timeslotSize = _
  unfold Table.put
  split <;> rfl

@[simp] theorem put_currTick (tick id : ℕ) :
    (pool.put tick id).2.table.currTick = pool.table.currTick := by
  change (pool.table.put tick id).2.currTick = _
  unfold Table.put
  split <;> rfl

@[simp] theorem put_exp (tick id : ℕ) : (pool.put tick id).2.table.exp = pool.table.exp := by
  change (pool.table.put tick id).2.exp = _
  unfold Table.put
  split <;> rfl

theorem put_accepted (tick id : ℕ) :
    (pool.put tick id).1 = decide (tick < pool.table.timeslotSize) := by
  change (pool.table.put tick id).1 = _
  by_cases short : tick < pool.table.timeslotSize
  · rw [Table.put_of_lt short, decide_eq_true short]
  · rw [Table.put_of_le (Nat.not_lt.mp short), decide_eq_false short]

/-- A put adds its own node if the ticks fit the wheel, and nothing else. -/
theorem live_put_iff (tick id other slot : ℕ) : (pool.put tick id).2.Live other slot ↔
    pool.Live other slot ∨
      tick < pool.table.timeslotSize ∧ other = id ∧ slot = pool.table.slotFor tick := by
  unfold Live
  change (other, slot) ∈ (pool.table.put tick id).2.live ↔ _
  by_cases short : tick < pool.table.timeslotSize
  · rw [Table.put_of_lt short]
    simp only [List.mem_cons, Prod.mk.injEq, short, true_and]
    exact or_comm
  · rw [Table.put_of_le (Nat.not_lt.mp short)]
    simp only [short, false_and, or_false]

@[simp] theorem live_modify (id other slot : ℕ) (change : α → α) :
    (pool.modify id change).Live other slot ↔ pool.Live other slot := Iff.rfl

@[simp] theorem live_build (object : α) (other slot : ℕ) :
    (pool.build object).Live other slot ↔ pool.Live other slot := Iff.rfl

/-- A built object is live under the timeslot it was put for, besides those that
were live. -/
theorem live_build_put_iff {object : α} {ttl : ℕ} (short : ttl < pool.table.timeslotSize)
    (id slot : ℕ) : ((pool.build object).put ttl pool.built).2.Live id slot ↔
      pool.Live id slot ∨ id = pool.built ∧ slot = pool.table.slotFor ttl := by
  rw [live_put_iff, live_build, build_table]
  apply or_congr_right
  exact ⟨fun filed => filed.2, fun filed => ⟨short, filed⟩⟩

/-- A put holds its own node if the ticks fit the wheel, besides those that were held. -/
theorem mem_nodes_put_iff (tick id other : ℕ) : other ∈ (pool.put tick id).2.table.nodes ↔
    other ∈ pool.table.nodes ∨ tick < pool.table.timeslotSize ∧ other = id := by
  change other ∈ (pool.table.put tick id).2.nodes ↔ _
  by_cases short : tick < pool.table.timeslotSize
  · rw [Table.put_of_lt short]
    simp only [Table.nodes, List.map_cons, List.cons_append, List.mem_cons, short, true_and]
    exact or_comm
  · rw [Table.put_of_le (Nat.not_lt.mp short)]
    simp only [short, false_and, or_false]

theorem WF.put (wf : pool.WF) {id : ℕ} (fresh : id ∉ pool.table.nodes) (known : id < pool.built)
    (tick : ℕ) : (pool.put tick id).2.WF := by
  refine ⟨wf.table.put fresh tick, fun other member => ?_⟩
  change other ∈ (pool.table.put tick id).2.nodes at member
  by_cases short : tick < pool.table.timeslotSize
  · rw [Table.put_of_lt short] at member
    rcases List.mem_cons.mp member with rfl | member
    · exact known
    · exact wf.below other member
  · rw [Table.put_of_le (Nat.not_lt.mp short)] at member
    exact wf.below other member

@[simp] theorem prog_object (tick : ℕ) : (pool.prog tick).object = pool.object := rfl

@[simp] theorem prog_timeslotSize (tick : ℕ) :
    (pool.prog tick).table.timeslotSize = pool.table.timeslotSize :=
  Table.sweep_timeslotSize ..

@[simp] theorem prog_currTick (tick : ℕ) :
    (pool.prog tick).table.currTick = sizeT (pool.table.currTick + tick) := rfl

theorem prog_nodes (tick : ℕ) : (pool.prog tick).table.nodes.Perm pool.table.nodes :=
  Table.sweep_nodes ..

theorem WF.prog (wf : pool.WF) (tick : ℕ) : (pool.prog tick).WF := by
  refine ⟨?_, fun id member => wf.below id ((prog_nodes tick).mem_iff.mp member)⟩
  have swept := wf.table.sweep pool.table.slotAt 0 tick
  exact ⟨swept.nodup, swept.inside⟩

/-- Progress leaves the nodes whose timeslots it does not visit. -/
theorem live_prog_iff (tick id slot : ℕ) : (pool.prog tick).Live id slot ↔
    pool.Live id slot ∧ ¬ Table.Visits pool.table.slotAt 0 tick slot := by
  unfold Live
  change (id, slot) ∈ (pool.table.sweep pool.table.slotAt 0 tick).live ↔ _
  rw [Table.sweep_live, List.mem_filter, decide_eq_true_eq]

/-- The nodes that progress expires are those whose timeslots it visits. -/
theorem mem_exp_prog_iff (tick id : ℕ) : id ∈ (pool.prog tick).table.exp ↔
    id ∈ pool.table.exp ∨
      ∃ slot, pool.Live id slot ∧ Table.Visits pool.table.slotAt 0 tick slot := by
  obtain ⟨moved, expired, permuted⟩ := Table.sweep_exp pool.table.slotAt 0 tick pool.table
  change id ∈ (pool.table.sweep pool.table.slotAt 0 tick).exp ↔ _
  rw [expired, List.mem_append, permuted.mem_iff, or_comm]
  apply or_congr_right
  simp only [List.mem_map, List.mem_filter, decide_eq_true_eq, Prod.exists, exists_and_right,
    exists_eq_right, Live]

/-! ## Lookups -/

/-- A lookup answers a live object that accepts it. -/
theorem get_eq_some {virt : Virtual α κ} {hv : UInt64} {key : κ} {id : ℕ}
    (found : pool.get virt hv key = some id) :
    (∃ slot, pool.Live id slot) ∧ virt.Answers hv key (pool.object id) := by
  obtain ⟨entry, searched, rfl⟩ := Option.map_eq_some_iff.mp found
  have answers := List.find?_some searched
  exact ⟨⟨entry.2, List.mem_of_find?_eq_some searched⟩, of_decide_eq_true answers⟩

/-- A lookup answers nothing only when no live object accepts it. -/
theorem get_eq_none {virt : Virtual α κ} {hv : UInt64} {key : κ}
    (absent : pool.get virt hv key = none) {id slot : ℕ} (live : pool.Live id slot) :
    ¬ virt.Answers hv key (pool.object id) := by
  intro answers
  apply List.find?_eq_none.mp (Option.map_eq_none_iff.mp absent) _ live
  exact decide_eq_true answers

/-! ## Deadlines

While the tick counter does not wrap around, the timeslots visited by progress
are those whose deadlines it passes. -/

/-- Progress visits a timeslot exactly when it passes the deadline. -/
theorem visits_iff {tick slot : ℕ} (inside : slot < pool.table.timeslotSize)
    (bounded : pool.table.currTick + tick < 2 ^ 64) :
    Table.Visits pool.table.slotAt 0 tick slot ↔
      pool.deadline slot < pool.table.currTick + tick := by
  have swept : (∃ i < tick, (pool.table.currTick + i) % pool.table.timeslotSize = slot) ↔
      Wheel.left pool.table.timeslotSize pool.table.currTick slot < tick :=
    Wheel.left_lt_iff inside
  rw [deadline, Nat.add_lt_add_iff_left, ← swept]
  unfold Table.Visits Table.slotAt
  constructor
  · rintro ⟨i, -, below, named⟩
    rw [sizeT_of_lt (by omega)] at named
    exact ⟨i, by omega, named⟩
  · rintro ⟨i, below, named⟩
    refine ⟨i, Nat.zero_le i, by omega, ?_⟩
    rwa [sizeT_of_lt (by omega)]

/-- A node put now lives through as many ticks as it was put for. -/
theorem deadline_slotFor {tick : ℕ} (short : tick < pool.table.timeslotSize)
    (bounded : pool.table.currTick + tick < 2 ^ 64) :
    pool.deadline (pool.table.slotFor tick) = pool.table.currTick + tick := by
  rw [deadline, Table.slotFor, Nat.add_comm tick, sizeT_of_lt bounded, Wheel.left_add short]

/-- Progress does not move the deadlines of the nodes it leaves. -/
theorem deadline_prog {tick slot : ℕ} (inside : slot < pool.table.timeslotSize)
    (bounded : pool.table.currTick + tick < 2 ^ 64)
    (waiting : pool.table.currTick + tick ≤ pool.deadline slot) :
    (pool.prog tick).deadline slot = pool.deadline slot := by
  unfold deadline at waiting ⊢
  rw [prog_timeslotSize, prog_currTick, sizeT_of_lt bounded,
    Wheel.left_advance inside (by omega)]
  omega

end Pool

end Devourer
