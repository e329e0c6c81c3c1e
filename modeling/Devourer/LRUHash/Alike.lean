import Devourer.LRUHash.Pool
import Mathlib.Data.List.Find

/-! # Pools of objects that are alike

Two pools are alike when their tables are the same and their objects are related. They stay so
under the same operations, and lookups find the same in both, as long as the virtual functions
do not tell related objects apart.
-/

namespace Devourer.Pool

variable {α β κ : Type} {related : α → β → Prop} {pool : Pool α} {pool' : Pool β}

/-- The same nodes in the same table, all of them built, and related objects. -/
structure Alike (related : α → β → Prop) (pool : Pool α) (pool' : Pool β) : Prop where
  table : pool'.table = pool.table
  built : pool'.built = pool.built
  below : ∀ id ∈ pool.table.nodes, id < pool.built
  objects : ∀ id < pool.built, related (pool.object id) (pool'.object id)

namespace Alike

/-- Empty pools are alike. -/
theorem new [Inhabited α] [Inhabited β] (timeslotSize : ℕ) :
    Alike related (new timeslotSize : Pool α) (new timeslotSize) :=
  ⟨rfl, rfl, nofun, nofun⟩

/-- Related objects are built under the same number. -/
theorem build (alike : Alike related pool pool') {object : α} {object' : β}
    (here : related object object') : Alike related (pool.build object) (pool'.build object') where
  table := alike.table
  built := congrArg (· + 1) alike.built
  below id member := Nat.lt_succ_of_lt (alike.below id member)
  objects id known := by
    rcases Nat.lt_succ_iff_lt_or_eq.mp known with earlier | rfl
    · rw [build_object_of_lt earlier, build_object_of_lt (alike.built ▸ earlier)]
      exact alike.objects id earlier
    · rw [build_object_self, ← alike.built, build_object_self]
      exact here

/-- Related objects are changed to related ones. -/
theorem modify (alike : Alike related pool pool') {id : ℕ} {change : α → α} {change' : β → β}
    (changes : id < pool.built → related (change (pool.object id)) (change' (pool'.object id))) :
    Alike related (pool.modify id change) (pool'.modify id change') where
  table := alike.table
  built := alike.built
  below := alike.below
  objects other known := by
    by_cases same : other = id
    · subst same
      rw [modify_object_self, modify_object_self]
      exact changes known
    · rw [modify_object_of_ne same, modify_object_of_ne same]
      exact alike.objects other known

/-- A node is put in both pools or refused by both. -/
theorem put (alike : Alike related pool pool') (tick : ℕ) {id : ℕ} (known : id < pool.built) :
    (pool'.put tick id).1 = (pool.put tick id).1 ∧
      Alike related (pool.put tick id).2 (pool'.put tick id).2 := by
  have same : pool'.table.put tick id = pool.table.put tick id := by rw [alike.table]
  refine ⟨congrArg Prod.fst same, congrArg Prod.snd same, alike.built, ?_, alike.objects⟩
  intro other member
  rcases (mem_nodes_put_iff tick id other).mp member with member | ⟨-, rfl⟩
  · exact alike.below other member
  · exact known

/-- The same nodes expire. -/
theorem prog (alike : Alike related pool pool') (tick : ℕ) :
    Alike related (pool.prog tick) (pool'.prog tick) where
  table := congrArg (Table.prog tick) alike.table
  built := alike.built
  below id member := alike.below id ((prog_nodes tick).mem_iff.mp member)
  objects := alike.objects

/-- All nodes expire in both. -/
theorem purge (alike : Alike related pool pool') :
    Alike related { pool with table := pool.table.purge }
      { pool' with table := pool'.table.purge } where
  table := congrArg Table.purge alike.table
  built := alike.built
  below id member := alike.below id ((Table.sweep_nodes ..).mem_iff.mp member)
  objects := alike.objects

/-- The same node is popped, one that was built. -/
theorem pop (alike : Alike related pool pool') :
    pool'.pop.1 = pool.pop.1 ∧ Alike related pool.pop.2 pool'.pop.2 ∧
      ∀ id ∈ pool.pop.1, id < pool.pop.2.built := by
  have same : pool'.table.pop = pool.table.pop := by rw [alike.table]
  have below : (∀ id ∈ pool.table.pop.2.nodes, id < pool.built) ∧
      ∀ id ∈ pool.table.pop.1, id < pool.built := by
    unfold Table.pop
    cases expired : pool.table.exp with
    | nil => exact ⟨alike.below, nofun⟩
    | cons node rest =>
        have known : ∀ id ∈ pool.table.live.map Prod.fst ++ node :: rest, id < pool.built :=
          expired ▸ alike.below
        simp only [List.forall_mem_append, List.forall_mem_cons] at known
        refine ⟨List.forall_mem_append.mpr ⟨known.1, known.2.2⟩, ?_⟩
        rintro id ⟨⟩
        exact known.2.1
  exact ⟨congrArg Prod.fst same, ⟨congrArg Prod.snd same, alike.built, below.1, alike.objects⟩,
    below.2⟩

/-- The same node is found, when related objects answer to the same keys. -/
theorem get (alike : Alike related pool pool') {virt : Virtual α κ} {virt' : Virtual β κ}
    (same : ∀ object object', related object object' →
      ∀ hv key, virt.Answers hv key object ↔ virt'.Answers hv key object') (hv : UInt64) (key : κ) :
    pool'.get virt' hv key = pool.get virt hv key := by
  have answers : ∀ entry ∈ pool.table.live,
      (pool'.nodeVirt virt').Answers hv key entry.1 ↔ (pool.nodeVirt virt).Answers hv key entry.1 :=
    fun entry member => (same _ _ (alike.objects entry.1 (alike.below entry.1
      (List.mem_append_left _ (List.mem_map_of_mem member)))) hv key).symm
  unfold Pool.get Table.get
  rw [alike.table]
  congr 1
  apply List.find?_congr
  exact fun entry member => decide_eq_decide.mpr (answers entry member)

end Alike

end Devourer.Pool
