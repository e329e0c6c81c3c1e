import Devourer.LRUHash.Pool
import Mathlib.Data.Finset.Card

/-! # Pools with one object for each key

The table takes every node it is given, also when it holds one with the same key.
That there is one object for each key (`Pool.Keyed`) therefore rests on the client,
who must look a key up before an object with it is put. When this is kept, a lookup
for the key of a live object finds this object, and there are no more live objects
than keys.
-/

namespace Devourer

namespace Pool

variable {α β κ : Type} {key : α → β} {pool : Pool α}

/-- No two live objects have the same key. -/
def Keyed (key : α → β) (pool : Pool α) : Prop :=
  ∀ id slot other slot', pool.Live id slot → pool.Live other slot' →
    key (pool.object id) = key (pool.object other) → id = other

theorem Keyed.new [Inhabited α] (timeslotSize : ℕ) : (Pool.new timeslotSize).Keyed key := nofun

/-- An object may be added when no live one has its key. -/
theorem Keyed.add (keyed : pool.Keyed key) (wf : pool.WF) {object : α}
    (unknown : ∀ id slot, pool.Live id slot → key (pool.object id) ≠ key object) {ttl : ℕ}
    (short : ttl < pool.table.timeslotSize) :
    ((pool.build object).put ttl pool.built).2.Keyed key := by
  intro id slot other slot' live live' same
  rw [put_object] at same
  rcases (live_build_put_iff short id slot).mp live with live | ⟨rfl, -⟩ <;>
    rcases (live_build_put_iff short other slot').mp live' with live' | ⟨rfl, -⟩
  · rw [build_object_of_lt (wf.live_lt live), build_object_of_lt (wf.live_lt live')] at same
    exact keyed id slot other slot' live live' same
  · rw [build_object_of_lt (wf.live_lt live), build_object_self] at same
    exact (unknown id slot live same).elim
  · rw [build_object_of_lt (wf.live_lt live'), build_object_self] at same
    exact (unknown other slot' live' same.symm).elim
  · rfl

/-- Objects may be changed where the key is not read. -/
theorem Keyed.modify (keyed : pool.Keyed key) {change : α → α}
    (unread : ∀ object, key (change object) = key object) (id : ℕ) :
    (pool.modify id change).Keyed key := by
  intro one slot other slot' live live' same
  rw [modify_read key change unread, modify_read key change unread] at same
  exact keyed one slot other slot' live live' same

theorem Keyed.prog (keyed : pool.Keyed key) (tick : ℕ) : (pool.prog tick).Keyed key := by
  intro id slot other slot' live live' same
  exact keyed id slot other slot' ((live_prog_iff tick id slot).mp live).1
    ((live_prog_iff tick other slot').mp live').1 same

/-- **A lookup finds the object of the key**, whatever else it could have accepted. -/
theorem Keyed.get_eq_some (keyed : pool.Keyed key) {virt : Virtual α κ} {hv : UInt64} {name : κ}
    {id slot : ℕ} (live : pool.Live id slot) (answers : virt.Answers hv name (pool.object id))
    (only : ∀ object, virt.Answers hv name object → key object = key (pool.object id)) :
    pool.get virt hv name = some id := by
  cases found : pool.get virt hv name with
  | none => exact (get_eq_none found live answers).elim
  | some other =>
      obtain ⟨⟨slot', live'⟩, accepted⟩ := Pool.get_eq_some found
      rw [keyed other slot' id slot live' live (only _ accepted)]

/-- There are no more live objects than keys they may have. -/
theorem Keyed.length_le [DecidableEq β] (keyed : pool.Keyed key) (wf : pool.WF) {keys : Finset β}
    (within : ∀ id slot, pool.Live id slot → key (pool.object id) ∈ keys) :
    pool.table.live.length ≤ keys.card := by
  have live : ∀ entry ∈ pool.table.live, pool.Live entry.1 entry.2 := fun _ member => member
  have nodup : (pool.table.live.map fun entry => key (pool.object entry.1)).Nodup := by
    refine wf.table.live_nodup.of_map Prod.fst |>.map_on fun one here other there same => ?_
    have ids := keyed _ _ _ _ (live one here) (live other there) same
    refine Prod.ext ids (wf.table.slot_unique here ?_)
    rw [ids]
    exact there
  rw [← List.length_map fun entry => key (pool.object entry.1),
    ← List.toFinset_card_of_nodup nodup]
  apply Finset.card_le_card
  intro one member
  obtain ⟨entry, inside, rfl⟩ := List.mem_map.mp (List.mem_toFinset.mp member)
  exact within _ _ (live entry inside)

/-! ## The order of the objects -/

/-- The live objects stand in the order in which they were built, the last one first. -/
def Stacked (pool : Pool α) : Prop := (pool.table.live.map Prod.fst).Pairwise (· > ·)

theorem Stacked.new [Inhabited α] (timeslotSize : ℕ) : (Pool.new timeslotSize : Pool α).Stacked :=
  List.Pairwise.nil

theorem Stacked.add (stacked : pool.Stacked) (wf : pool.WF) (object : α) (ttl : ℕ) :
    ((pool.build object).put ttl pool.built).2.Stacked := by
  unfold Stacked
  change ((pool.table.put ttl pool.built).2.live.map Prod.fst).Pairwise (· > ·)
  by_cases short : ttl < pool.table.timeslotSize
  · rw [Table.put_of_lt short]
    refine List.pairwise_cons.mpr ⟨fun id member => ?_, stacked⟩
    exact wf.below id (List.mem_append_left _ member)
  · rw [Table.put_of_le (Nat.not_lt.mp short)]
    exact stacked

theorem Stacked.prog (stacked : pool.Stacked) (tick : ℕ) : (pool.prog tick).Stacked := by
  unfold Stacked
  change ((pool.table.sweep pool.table.slotAt 0 tick).live.map Prod.fst).Pairwise (· > ·)
  rw [Table.sweep_live]
  exact stacked.sublist (List.filter_sublist.map _)

/-- A lookup answers the object built last among those that accept it. -/
theorem Stacked.le_of_get (stacked : pool.Stacked) {virt : Virtual α κ} {hv : UInt64} {name : κ}
    {id other slot : ℕ} (found : pool.get virt hv name = some id) (live : pool.Live other slot)
    (answers : virt.Answers hv name (pool.object other)) : other ≤ id := by
  obtain ⟨entry, searched, rfl⟩ := Option.map_eq_some_iff.mp found
  obtain ⟨-, front, back, split, rejected⟩ := List.find?_eq_some_iff_append.mp searched
  have member : (other, slot) ∈ front ++ entry :: back := split ▸ live
  rcases List.mem_append.mp member with before | after
  · have refused := rejected _ before
    rw [Bool.not_eq_true', decide_eq_false_iff_not] at refused
    exact (refused answers).elim
  rcases List.mem_cons.mp after with same | behind
  · exact Nat.le_of_eq (congrArg Prod.fst same)
  · unfold Stacked at stacked
    rw [split, List.map_append, List.map_cons] at stacked
    have later := (List.pairwise_cons.mp (List.pairwise_append.mp stacked).2.1).1
    exact Nat.le_of_lt (later other (List.mem_map_of_mem behind))

end Pool

end Devourer
