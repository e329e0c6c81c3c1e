import Devourer.LRUHash.History

/-! # Integrity of the pointer structures

Whatever a client does within its rule, the pointers of a table stay a set of
separate finite lists: a chain through `next_` and `prev_` for each bucket, a
list through `link_` for each timeslot, and the list of expired nodes. No path of
pointers leads from a root of the table to a node that the client has got back,
so deleting such a node leaves nothing dangling, and every loop of the class
ends (`Run.intact`).
-/

namespace Devourer

variable {ν κ : Type}

/-- One of the three fields of `first` points to `second`. -/
def Heap.Points (heap : Heap ν) (first second : Cell ν) : Prop :=
  heap.next first = some second ∨ heap.prev first = some second ∨ heap.link first = some second

namespace LRUHash

/-- The nodes that a table holds by value. -/
def Root (hash : LRUHash ν) : Cell ν → Prop
  | .bucket ptr => ptr < hash.bucketSize
  | .timeslot tp => tp < hash.timeslotSize
  | .expNode => True
  | .node _ => False

/-- The lists that the pointers of a table trace out. -/
structure Layout (ν : Type) where
  chain : ℕ → List ν
  slot : ℕ → List ν
  expired : List ν

/-- The representation invariant of the table. A node is live while it is in a
timeslot list, and held while it is live or expired. -/
structure Intact (layout : Layout ν) (history : History ν κ) (world : World ν κ) : Prop where
  chains : ∀ ptr < world.hash.bucketSize,
    Linked.Chain world.hash.heap.next (.bucket ptr) ((layout.chain ptr).map .node) ∧
      Linked.Back world.hash.heap.prev (.bucket ptr) ((layout.chain ptr).map .node)
  slots : ∀ tp < world.hash.timeslotSize,
    Linked.Chain world.hash.heap.link (.timeslot tp) ((layout.slot tp).map .node)
  expired : Linked.Chain world.hash.heap.link .expNode (layout.expired.map .node)
  acyclic : (∀ ptr < world.hash.bucketSize, (layout.chain ptr).Nodup) ∧
    (∀ tp < world.hash.timeslotSize, (layout.slot tp).Nodup) ∧ layout.expired.Nodup
  slots_disjoint : ∀ first < world.hash.timeslotSize, ∀ second < world.hash.timeslotSize,
    first ≠ second → List.Disjoint (layout.slot first) (layout.slot second)
  expired_disjoint : ∀ tp < world.hash.timeslotSize,
    List.Disjoint (layout.slot tp) layout.expired
  home : ∀ tp < world.hash.timeslotSize, ∀ node ∈ layout.slot tp,
    ∀ ptr < world.hash.bucketSize, node ∈ layout.chain ptr ↔
      ptr = (world.virt.hash node).toNat % world.hash.bucketSize
  chained_live : ∀ ptr < world.hash.bucketSize, ∀ node ∈ layout.chain ptr,
    ∃ tp < world.hash.timeslotSize, node ∈ layout.slot tp
  held : ∀ node, Held history node ↔
    (∃ tp < world.hash.timeslotSize, node ∈ layout.slot tp) ∨ node ∈ layout.expired
  unreachable : ∀ node, ¬ Held history node → ∀ root, world.hash.Root root →
    ¬ Relation.ReflTransGen world.hash.heap.Points root (.node node)

end LRUHash

namespace Represents

variable {virt : Virtual ν κ} {hash : LRUHash ν} {table : Table ν}

/-- The cells of the lists are nodes that the table holds. -/
theorem held_of_chain {ptr : ℕ} {cell : Cell ν}
    (member : cell ∈ (table.bucketNodes virt hash.bucketSize ptr).map Cell.node) :
    ∃ node ∈ table.nodes, .node node = cell := by
  obtain ⟨node, live, named⟩ := List.mem_map.mp member
  exact ⟨node, List.mem_append_left _ (Table.mem_bucketNodes.mp live).1, named⟩

theorem held_of_slot {tp : ℕ} {cell : Cell ν}
    (member : cell ∈ (table.slotNodes tp).map Cell.node) :
    ∃ node ∈ table.nodes, .node node = cell := by
  obtain ⟨node, live, named⟩ := List.mem_map.mp member
  exact ⟨node, List.mem_append_left _ (Table.mem_live_of_mem_slotNodes live), named⟩

theorem held_of_expired {cell : Cell ν} (member : cell ∈ table.exp.map Cell.node) :
    ∃ node ∈ table.nodes, .node node = cell := by
  obtain ⟨node, expired, named⟩ := List.mem_map.mp member
  exact ⟨node, List.mem_append_right _ expired, named⟩

/-- A pointer of a root leads to a held node. -/
theorem points_root (rep : Represents virt hash table) {first second : Cell ν}
    (points : hash.heap.Points first second) (root : hash.Root first) :
    ∃ node ∈ table.nodes, .node node = second := by
  have bare : ∀ node, first ≠ .node node := by
    rintro node rfl
    exact root
  obtain ⟨prev, next, link⟩ := rep.roots first bare
  rcases points with along | along | along
  · cases first with
    | bucket ptr => exact held_of_chain ((rep.chains ptr root).step_mem List.mem_cons_self along)
    | timeslot tp => cases (next (by simp)).symm.trans along
    | expNode => cases (next (by simp)).symm.trans along
    | node node => exact (bare node rfl).elim
  · cases prev.symm.trans along
  · cases first with
    | bucket ptr => cases (link ⟨ptr, rfl⟩).symm.trans along
    | timeslot tp => exact held_of_slot ((rep.slots tp root).step_mem List.mem_cons_self along)
    | expNode => exact held_of_expired (rep.expired.step_mem List.mem_cons_self along)
    | node node => exact (bare node rfl).elim

/-- A pointer of a live node leads to the root of its bucket or to a held node. -/
theorem points_live (rep : Represents virt hash table) (buckets : 0 < hash.bucketSize) {node : ν}
    {second : Cell ν} (points : hash.heap.Points (.node node) second)
    (live : node ∈ table.live.map Prod.fst) :
    hash.Root second ∨ ∃ node ∈ table.nodes, .node node = second := by
  have bounded := Nat.mod_lt (virt.hash node).toNat buckets
  have onChain : Cell.node node ∈ (table.bucketNodes virt hash.bucketSize
      ((virt.hash node).toNat % hash.bucketSize)).map Cell.node :=
    List.mem_map_of_mem (Table.mem_bucketNodes.mpr ⟨live, rfl⟩)
  obtain ⟨tp, entry⟩ := Table.exists_slot live
  have inSlot : Cell.node node ∈ (table.slotNodes tp).map Cell.node :=
    List.mem_map_of_mem (Table.mem_slotNodes.mpr entry)
  have slotBounded : tp < hash.timeslotSize := by
    rw [rep.timeslotSize]
    exact rep.wf.inside _ entry
  rcases points with along | along | along
  · exact .inr (held_of_chain
      ((rep.chains _ bounded).step_mem (List.mem_cons_of_mem _ onChain) along))
  · rcases List.mem_cons.mp ((rep.backs _ bounded).step_mem onChain along) with root | member
    · exact .inl (root ▸ bounded)
    · exact .inr (held_of_chain member)
  · exact .inr (held_of_slot
      ((rep.slots tp slotBounded).step_mem (List.mem_cons_of_mem _ inSlot) along))

/-- A pointer of a root or of a held node leads to a root or to a held node. -/
theorem points_held (rep : Represents virt hash table) (buckets : 0 < hash.bucketSize)
    {first second : Cell ν} (points : hash.heap.Points first second)
    (inside : hash.Root first ∨ ∃ node ∈ table.nodes, .node node = first) :
    hash.Root second ∨ ∃ node ∈ table.nodes, .node node = second := by
  rcases inside with root | ⟨node, held, rfl⟩
  · exact .inr (rep.points_root points root)
  rcases List.mem_append.mp held with live | expired
  · exact rep.points_live buckets points live
  · obtain ⟨next, prev⟩ := rep.detached node expired
    rcases points with along | along | along
    · cases next.symm.trans along
    · cases prev.symm.trans along
    · have onList : Cell.node node ∈ table.exp.map Cell.node := List.mem_map_of_mem expired
      exact .inr (held_of_expired (rep.expired.step_mem (List.mem_cons_of_mem _ onList) along))

/-- Only held nodes can be reached from the roots. -/
theorem held_of_reachable (rep : Represents virt hash table) (buckets : 0 < hash.bucketSize)
    {root : Cell ν} (isRoot : hash.Root root) {node : ν}
    (path : Relation.ReflTransGen hash.heap.Points root (.node node)) : node ∈ table.nodes := by
  have inside : ∀ cell, Relation.ReflTransGen hash.heap.Points root cell →
      hash.Root cell ∨ ∃ node ∈ table.nodes, .node node = cell := by
    intro cell path
    induction path with
    | refl => exact .inl isRoot
    | tail _ points ih => exact rep.points_held buckets points ih
  rcases inside _ path with impossible | ⟨held, member, named⟩
  · exact impossible.elim
  · cases named
    exact member

end Represents

namespace LRUHash

variable [DecidableEq ν] {timeslots buckets : ℕ} {history : History ν κ} {world : World ν κ}

/-- **The pointers stay intact and the loops end.** In every state that a client
can reach, the pointers of the table lay out separate finite lists as described
by `Intact`, and every legal call returns when its loops are given enough fuel,
whatever the number of timeslots, provided there is one. -/
theorem Run.intact (run : Run timeslots buckets history world) (positive : 0 < timeslots) :
    (∃ layout, Intact layout history world) ∧
      ∀ call, Legal history world.virt call →
        ∃ enough, ∀ fuel ≥ enough, (world.step fuel call).isSome = true := by
  obtain ⟨table, tracks, -⟩ := run.tracks positive (motive := fun _ _ => True) trivial
    (fun _ _ _ _ _ _ _ _ _ => trivial)
  have rep := tracks.represents
  have sizes := rep.timeslotSize
  refine ⟨⟨⟨fun ptr => table.bucketNodes world.virt world.hash.bucketSize ptr,
    fun tp => table.slotNodes tp, table.exp⟩, ?_⟩, fun call legal =>
      ⟨table.live.length + 1, fun fuel enough => ?_⟩⟩
  swap
  · obtain ⟨next, stepped, -⟩ := tracks.step positive legal (Nat.lt_of_succ_le enough)
    rw [stepped]
    rfl
  have heldIff : ∀ node, Held history node ↔
      (∃ tp < world.hash.timeslotSize, node ∈ table.slotNodes tp) ∨ node ∈ table.exp := by
    intro node
    rw [tracks.held, Table.nodes, List.mem_append]
    refine or_congr_left ⟨fun live => ?_, ?_⟩
    · obtain ⟨tp, entry⟩ := Table.exists_slot live
      exact ⟨tp, sizes ▸ rep.wf.inside _ entry, Table.mem_slotNodes.mpr entry⟩
    · rintro ⟨tp, -, member⟩
      exact Table.mem_live_of_mem_slotNodes member
  refine
    { chains := fun ptr inside => ⟨rep.chains ptr inside, rep.backs ptr inside⟩
      slots := rep.slots
      expired := rep.expired
      acyclic := ⟨fun ptr _ => rep.wf.live_nodup.filter _, fun tp _ => ?_, rep.wf.exp_nodup⟩
      slots_disjoint := fun first _ second _ distinct node here there =>
        distinct (rep.wf.slot_unique (Table.mem_slotNodes.mp here) (Table.mem_slotNodes.mp there))
      expired_disjoint := fun tp _ node here there =>
        rep.wf.not_mem_exp (Table.mem_live_of_mem_slotNodes here) there
      home := fun tp _ node member ptr _ => ?_
      chained_live := fun ptr _ node member => ?_
      held := heldIff
      unreachable := fun node notHeld root isRoot path => notHeld ?_ }
  · exact rep.wf.live_nodup.sublist (List.filter_sublist.map _)
  · have live := Table.mem_live_of_mem_slotNodes member
    exact ⟨fun inChain => (Table.mem_bucketNodes.mp inChain).2.symm,
      fun same => Table.mem_bucketNodes.mpr ⟨live, same.symm⟩⟩
  · obtain ⟨tp, entry⟩ := Table.exists_slot (Table.mem_bucketNodes.mp member).1
    exact ⟨tp, sizes ▸ rep.wf.inside _ entry, Table.mem_slotNodes.mpr entry⟩
  · exact (tracks.held node).mpr (rep.held_of_reachable tracks.buckets isRoot path)

theorem Run.intact_sample : ∃ world, Run 2 1 sampleHistory world ∧
    (∃ layout, Intact layout sampleHistory world) ∧
      ∃ enough, ∀ fuel ≥ enough, (world.step fuel (.prog 5)).isSome = true := by
  obtain ⟨world, run⟩ := Run.sample
  obtain ⟨layout, ends⟩ := run.intact (by decide)
  exact ⟨world, run, layout, ends (.prog 5) trivial⟩

end LRUHash

end Devourer
