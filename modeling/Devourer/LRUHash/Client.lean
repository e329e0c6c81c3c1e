import Devourer.LRUHash.Integrity
import Devourer.LRUHash.Pool

/-! # The table over pointers behind a pool

The modules are written against `Pool`, whose table is the abstract one; the
program runs `LRUHash` over pointers. A pool is `Realized` when calls that keep
the client's rule lead from a fresh `LRUHash` to one that represents the table of
the pool, its nodes having the virtual functions of the objects. The operations
of a pool are such calls, provided that an object is put only when it is not in
the table and changes neither its hash nor what it matches while it is, and the
pool answers lookups and pops as the table over pointers does.
-/

namespace Devourer

namespace Pool

open LRUHash

variable {α κ : Type} {virt : Virtual α κ} {timeslots buckets : ℕ} {pool : Pool α}

/-- The table over pointers was reached by legal calls and represents the table of
the pool, with the virtual functions of its objects. -/
structure Behind (virt : Virtual α κ) (timeslots buckets : ℕ) (pool : Pool α)
    (world : World ℕ κ) : Prop where
  run : ∃ history, Run timeslots buckets history world ∧ Tracks timeslots history world pool.table
  virt : world.virt = pool.nodeVirt virt

/-- The client may make the call when the table has the nodes that the pool says. -/
def Permits (virt : Virtual α κ) (pool : Pool α) (call : Call ℕ κ) : Prop :=
  ∀ history : History ℕ κ, (∀ id, Held history id ↔ id ∈ pool.table.nodes) →
    Legal history (pool.nodeVirt virt) call

/-- **One call.** The table over pointers answers a permitted call as the abstract
table does, and then stands behind every pool that the call leads to. -/
theorem Behind.call {world : World ℕ κ} (behind : pool.Behind virt timeslots buckets world)
    (positive : 0 < timeslots) (call : Call ℕ κ) (permitted : pool.Permits virt call) :
    ∃ fuel next, world.step fuel call =
        some (tableAnswer (pool.nodeVirt virt) pool.table call, next) ∧
      ∀ after : Pool α, after.table = tableAfter pool.table call →
        after.nodeVirt virt = virtAfter (pool.nodeVirt virt) call →
        after.Behind virt timeslots buckets next := by
  obtain ⟨⟨history, run, tracks⟩, same⟩ := behind
  have legal : Legal history world.virt call := by
    rw [same]
    exact permitted history tracks.held
  obtain ⟨next, stepped, tracked⟩ :=
    tracks.step positive legal (Nat.lt_succ_self pool.table.live.length)
  have moved := World.step_virt stepped
  have ran := run.step legal stepped
  rw [same] at stepped moved
  refine ⟨_, next, stepped, fun after table functions => ⟨⟨_, ran, ?_⟩, ?_⟩⟩
  · rwa [table]
  · rw [moved, functions]

/-- Some table over pointers stands behind the pool. -/
structure Realized (virt : Virtual α κ) (timeslots buckets : ℕ) (pool : Pool α) : Prop where
  positive : 0 < timeslots
  world : ∃ world, pool.Behind virt timeslots buckets world

theorem Realized.new [Inhabited α] (virt : Virtual α κ) (buckets : ℕ) (positive : 0 < timeslots) :
    (Pool.new timeslots : Pool α).Realized virt timeslots buckets :=
  ⟨positive, _, ⟨[], Run.fresh _, Tracks.fresh timeslots buckets _⟩, rfl⟩

theorem Realized.nodup (realized : pool.Realized virt timeslots buckets) :
    pool.table.nodes.Nodup := by
  obtain ⟨-, _, ⟨_, _, tracks⟩, _⟩ := realized
  exact tracks.represents.wf.nodup

/-- A permitted call leads from one realized pool to another. -/
theorem Realized.call (realized : pool.Realized virt timeslots buckets) (call : Call ℕ κ)
    (permitted : pool.Permits virt call) {after : Pool α}
    (table : after.table = tableAfter pool.table call)
    (functions : after.nodeVirt virt = virtAfter (pool.nodeVirt virt) call) :
    after.Realized virt timeslots buckets := by
  obtain ⟨positive, world, behind⟩ := realized
  obtain ⟨_, next, -, leads⟩ := behind.call positive call permitted
  exact ⟨positive, next, leads after table functions⟩

/-- A lookup in the pool is answered by the table over pointers behind it. -/
theorem Realized.get (realized : pool.Realized virt timeslots buckets) (hv : UInt64) (key : κ) :
    ∃ world, pool.Behind virt timeslots buckets world ∧ ∃ fuel next,
      world.step fuel (.get hv key) = some (.pointer ((pool.get virt hv key).map .node), next) := by
  obtain ⟨positive, world, behind⟩ := realized
  obtain ⟨fuel, next, answered, -⟩ := behind.call positive (.get hv key) fun _ _ => trivial
  exact ⟨world, behind, fuel, next, answered⟩

/-- So is a pop, and what it answers is no longer in the table. -/
theorem Realized.pop (realized : pool.Realized virt timeslots buckets) :
    (∃ world, pool.Behind virt timeslots buckets world ∧ ∃ fuel next,
      world.step fuel .pop = some (.pointer (pool.pop.1.map .node), next)) ∧
    pool.pop.2.Realized virt timeslots buckets ∧
      ∀ id, pool.pop.1 = some id → id ∉ pool.pop.2.table.nodes := by
  obtain ⟨positive, world, behind⟩ := realized
  obtain ⟨fuel, next, answered, leads⟩ := behind.call positive .pop fun _ _ => trivial
  have nodup := Realized.nodup ⟨positive, world, behind⟩
  refine ⟨⟨world, behind, fuel, next, answered⟩, ⟨positive, next, leads _ rfl rfl⟩,
    fun id popped => ?_⟩
  obtain ⟨⟨size, tick, live, exp⟩, object, built⟩ := pool
  cases exp with
  | nil => cases popped
  | cons first rest =>
      cases popped
      exact (List.nodup_middle.mp nodup).notMem

/-- A node that is not in the table cannot be reached from it, and may be deleted. -/
theorem Realized.unreachable (realized : pool.Realized virt timeslots buckets) :
    ∃ world, pool.Behind virt timeslots buckets world ∧
      ∀ id, id ∉ pool.table.nodes → ∀ root, world.hash.Root root →
        ¬ Relation.ReflTransGen world.hash.heap.Points root (.node id) := by
  obtain ⟨positive, world, ⟨history, run, tracks⟩, same⟩ := realized
  refine ⟨world, ⟨⟨history, run, tracks⟩, same⟩, fun id gone root isRoot path => gone ?_⟩
  exact tracks.represents.held_of_reachable tracks.buckets isRoot path

theorem Realized.prog (realized : pool.Realized virt timeslots buckets) (tick : ℕ) :
    (pool.prog tick).Realized virt timeslots buckets :=
  realized.call (.prog tick) (fun _ _ => trivial) rfl rfl

theorem Realized.put (realized : pool.Realized virt timeslots buckets) {id : ℕ}
    (fresh : id ∉ pool.table.nodes) (tick : ℕ) :
    (pool.put tick id).2.Realized virt timeslots buckets :=
  realized.call (.put tick id) (fun _ held member => fresh ((held id).mp member)) rfl rfl

/-- The client may change what the virtual functions of the nodes do not look at. -/
theorem Realized.mutate (realized : pool.Realized virt timeslots buckets) {after : Pool α}
    (table : after.table = pool.table)
    (alike : ∀ id ∈ pool.table.nodes, virt.hash (after.object id) = virt.hash (pool.object id) ∧
      virt.matches? (after.object id) = virt.matches? (pool.object id)) :
    after.Realized virt timeslots buckets :=
  realized.call (.mutate (after.nodeVirt virt))
    (fun _ held id member => alike id ((held id).mp member)) table rfl

theorem Realized.modify (realized : pool.Realized virt timeslots buckets) (id : ℕ) {change : α → α}
    (hash : ∀ object, virt.hash (change object) = virt.hash object)
    (matches' : ∀ object, virt.matches? (change object) = virt.matches? object) :
    (pool.modify id change).Realized virt timeslots buckets := by
  refine realized.mutate rfl fun other _ => ?_
  by_cases self : other = id
  · subst self
    rw [modify_object_self]
    exact ⟨hash _, matches' _⟩
  · rw [modify_object_of_ne self]
    exact ⟨rfl, rfl⟩

/-- A new object may be built and put. -/
theorem Realized.add (realized : pool.Realized virt timeslots buckets) (wf : pool.WF) (object : α)
    (tick : ℕ) : ((pool.build object).put tick pool.built).2.Realized virt timeslots buckets := by
  have built : (pool.build object).Realized virt timeslots buckets := by
    refine realized.mutate rfl fun id member => ?_
    rw [build_object_of_lt (wf.below id member)]
    exact ⟨rfl, rfl⟩
  exact built.put wf.built_not_mem tick

end Pool

end Devourer
