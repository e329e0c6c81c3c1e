import Devourer.Foundation.Linked
import Devourer.LRUHash.Table

/-! # The pointers represent the lists

`Represents` relates a table over pointers to an abstract one: every bucket
chain is the part of the live list with that hash value, every timeslot list the
part filed under that timeslot, and the list at `exp_node_` is the expired list.
Every operation over pointers keeps the relation with the operation over lists
and gives the same answer. The loops need no more fuel than one step for each
live node and one for noticing the end.
-/

namespace Devourer

open Function

variable {ν κ : Type} {virt : Virtual ν κ}

namespace Table

/-- The live nodes of one bucket, the most recent put first. -/
def bucketNodes (virt : Virtual ν κ) (buckets ptr : ℕ) (table : Table ν) : List ν :=
  (table.live.map Prod.fst).filter fun node => (virt.hash node).toNat % buckets = ptr

/-- The live nodes of one timeslot, the most recent put first. -/
def slotNodes (tp : ℕ) (table : Table ν) : List ν :=
  (table.live.filter fun entry => entry.2 = tp).map Prod.fst

theorem mem_bucketNodes {table : Table ν} {buckets ptr : ℕ} {node : ν} :
    node ∈ table.bucketNodes virt buckets ptr ↔
      node ∈ table.live.map Prod.fst ∧ (virt.hash node).toNat % buckets = ptr := by
  rw [bucketNodes, List.mem_filter, decide_eq_true_eq]

theorem mem_slotNodes {table : Table ν} {tp : ℕ} {node : ν} :
    node ∈ table.slotNodes tp ↔ (node, tp) ∈ table.live := by
  simp only [slotNodes, List.mem_map, List.mem_filter, decide_eq_true_eq]
  constructor
  · rintro ⟨⟨other, slot⟩, ⟨member, rfl⟩, rfl⟩
    exact member
  · intro member
    exact ⟨(node, tp), ⟨member, rfl⟩, rfl⟩

theorem bucketNodes_cons (buckets ptr tp : ℕ) (node : ν) (table : Table ν) :
    bucketNodes virt buckets ptr { table with live := (node, tp) :: table.live } =
      if (virt.hash node).toNat % buckets = ptr then node :: table.bucketNodes virt buckets ptr
      else table.bucketNodes virt buckets ptr := by
  simp only [bucketNodes, List.map_cons, List.filter_cons, decide_eq_true_eq]

theorem slotNodes_cons (slot tp : ℕ) (node : ν) (table : Table ν) :
    slotNodes slot { table with live := (node, tp) :: table.live } =
      if tp = slot then node :: table.slotNodes slot else table.slotNodes slot := by
  simp only [slotNodes, List.filter_cons, decide_eq_true_eq]
  split <;> rfl

theorem mem_live_of_mem_slotNodes {table : Table ν} {tp : ℕ} {node : ν}
    (member : node ∈ table.slotNodes tp) : node ∈ table.live.map Prod.fst :=
  List.mem_map.mpr ⟨(node, tp), mem_slotNodes.mp member, rfl⟩

theorem slotNodes_length_le (tp : ℕ) (table : Table ν) :
    (table.slotNodes tp).length ≤ table.live.length := by
  rw [slotNodes, List.length_map]
  exact List.length_filter_le _ _

variable [DecidableEq ν]

/-- Expire one node. -/
def expireNode (node : ν) (table : Table ν) : Table ν :=
  { table with
    live := table.live.filter (fun entry => entry.1 ≠ node)
    exp := node :: table.exp }

theorem filter_ne_of_not_mem {node : ν} {nodes : List ν} (off : node ∉ nodes) :
    nodes.filter (fun other => other ≠ node) = nodes := by
  refine List.filter_eq_self.mpr fun other member => decide_eq_true ?_
  rintro rfl
  exact off member

/-- Filtering out a node that occurs once takes out that occurrence. -/
theorem filter_ne_split {node : ν} {front back : List ν}
    (nodup : (front ++ node :: back).Nodup) :
    (front ++ node :: back).filter (fun other => other ≠ node) = front ++ back := by
  have off := (List.nodup_cons.mp (List.nodup_middle.mp nodup)).1
  rw [List.filter_append, List.filter_cons]
  simp only [ne_eq, not_true_eq_false, decide_false, Bool.false_eq_true, ↓reduceIte]
  rw [← List.filter_append]
  exact filter_ne_of_not_mem off

theorem bucketNodes_expireNode (buckets ptr : ℕ) (node : ν) (table : Table ν) :
    (table.expireNode node).bucketNodes virt buckets ptr =
      (table.bucketNodes virt buckets ptr).filter (fun other => other ≠ node) := by
  simp only [bucketNodes, expireNode, List.filter_filter, List.filter_map]
  congr 1
  refine List.filter_congr fun entry _ => ?_
  simp only [comp_apply, Bool.and_comm]

theorem slotNodes_expireNode (tp : ℕ) (node : ν) (table : Table ν) :
    (table.expireNode node).slotNodes tp =
      (table.slotNodes tp).filter (fun other => other ≠ node) := by
  simp only [slotNodes, expireNode, List.filter_filter, List.filter_map]
  congr 1
  refine List.filter_congr fun entry _ => ?_
  simp only [comp_apply, Bool.and_comm]

/-- The nodes held after one of them expires are the nodes held before. -/
theorem WF.expireNode {table : Table ν} (wf : table.WF) {node : ν}
    (live : node ∈ table.live.map Prod.fst) : (table.expireNode node).WF := by
  refine ⟨?_, fun entry member => wf.inside entry (List.mem_filter.mp member).1⟩
  have kept : ((table.live.filter fun entry => entry.1 ≠ node).map Prod.fst).Sublist
      (table.live.map Prod.fst) := List.filter_sublist.map _
  refine List.nodup_middle.mpr (List.nodup_cons.mpr ⟨?_, wf.nodup.sublist
    (List.Sublist.append kept (List.Sublist.refl _))⟩)
  rintro member
  rcases List.mem_append.mp member with remaining | expired
  · obtain ⟨entry, inside, named⟩ := List.mem_map.mp remaining
    exact of_decide_eq_true (List.mem_filter.mp inside).2 named
  · exact wf.not_mem_exp live expired

/-- Draining a timeslot expires its nodes one by one, the first of its list
first. -/
theorem drain_expireNode {table : Table ν} (wf : table.WF) {tp : ℕ} {node : ν} {rest : List ν}
    (slot : table.slotNodes tp = node :: rest) :
    (table.expireNode node).drain tp = table.drain tp ∧
      (table.expireNode node).slotNodes tp = rest := by
  obtain ⟨front, back, split, none, same⟩ : ∃ front back : List (ν × ℕ),
      table.live = front ++ (node, tp) :: back ∧ (∀ entry ∈ front, entry.2 ≠ tp) ∧
        (back.filter fun entry => entry.2 = tp).map Prod.fst = rest := by
    obtain ⟨⟨head, headSlot⟩, tail, filtered, named, tailNames⟩ := List.map_eq_cons_iff.mp slot
    obtain ⟨front, back, split, none, headIn, tailIs⟩ := List.filter_eq_cons_iff.mp filtered
    cases (named : head = node)
    have headIs : headSlot = tp := of_decide_eq_true headIn
    subst headIs
    exact ⟨front, back, split, fun entry member => by simpa using none entry member,
      by rw [tailIs]; exact tailNames⟩
  have distinct : (front.map Prod.fst ++ node :: back.map Prod.fst).Nodup := by
    have := wf.live_nodup
    rwa [split, List.map_append, List.map_cons] at this
  have away : ∀ entry ∈ front ++ back, entry.1 ≠ node := by
    rintro entry member rfl
    refine (List.nodup_cons.mp (List.nodup_middle.mp distinct)).1 ?_
    rw [← List.map_append]
    exact List.mem_map_of_mem member
  have live : (table.expireNode node).live = front ++ back := by
    change table.live.filter _ = _
    rw [split, List.filter_append, List.filter_cons]
    simp only [ne_eq, not_true_eq_false, decide_false, Bool.false_eq_true, ↓reduceIte]
    rw [← List.filter_append]
    exact List.filter_eq_self.mpr fun entry member => decide_eq_true (away entry member)
  have empty : front.filter (fun entry => entry.2 = tp) = [] :=
    List.filter_eq_nil_iff.mpr fun entry member => by simpa using none entry member
  constructor
  · simp only [drain, live]
    simp only [expireNode, split, List.filter_append, List.filter_cons, ne_eq, not_true_eq_false,
      decide_false, decide_true, Bool.false_eq_true, ↓reduceIte, empty, List.nil_append,
      List.map_cons, List.reverse_cons, List.append_assoc, List.cons_append]
  · rw [slotNodes, live, List.filter_append, empty, List.nil_append, same]

end Table

namespace Heap

variable [DecidableEq ν] (heap : Heap ν) (this node : Cell ν)

theorem attach_prev :
    (heap.attach this node).prev = Linked.pushBack heap.next heap.prev this node := by
  cases points : heap.next this <;> simp only [attach, Linked.pushBack, points]

theorem detach_next :
    (heap.detach this).next = Linked.unlink heap.next heap.prev this := by
  cases points : heap.prev this <;> simp only [detach, Linked.unlink, points]

theorem detach_prev :
    (heap.detach this).prev = Linked.unlink heap.prev heap.next this := by
  cases points : heap.next this <;> simp only [detach, Linked.unlink, points]

/-- Popping answers the first node of the list. -/
theorem popLink_cons {cells : List (Cell ν)} {cell : Cell ν}
    (chain : Linked.Chain heap.link this (cell :: cells)) :
    heap.popLink this = (some cell, { heap with link := Linked.pop heap.link this }) := by
  simp only [popLink, Linked.pop, chain.1]

theorem popLink_nil (chain : Linked.Chain heap.link this []) :
    heap.popLink this = (none, heap) := by
  simp only [popLink, show heap.link this = none from chain]

end Heap

/-- The pointers of `hash` lead through exactly the nodes of `table`. -/
structure Represents (virt : Virtual ν κ) (hash : LRUHash ν) (table : Table ν) : Prop where
  wf : table.WF
  timeslotSize : hash.timeslotSize = table.timeslotSize
  currTick : hash.currTick = table.currTick
  chains : ∀ ptr < hash.bucketSize, Linked.Chain hash.heap.next (.bucket ptr)
    ((table.bucketNodes virt hash.bucketSize ptr).map .node)
  backs : ∀ ptr < hash.bucketSize, Linked.Back hash.heap.prev (.bucket ptr)
    ((table.bucketNodes virt hash.bucketSize ptr).map .node)
  slots : ∀ tp < hash.timeslotSize, Linked.Chain hash.heap.link (.timeslot tp)
    ((table.slotNodes tp).map .node)
  expired : Linked.Chain hash.heap.link .expNode (table.exp.map .node)
  detached : ∀ node ∈ table.exp,
    hash.heap.next (.node node) = none ∧ hash.heap.prev (.node node) = none
  roots : ∀ cell, (∀ node, cell ≠ .node node) →
    hash.heap.prev cell = none ∧ ((∀ ptr, cell ≠ .bucket ptr) → hash.heap.next cell = none) ∧
      ((∃ ptr, cell = .bucket ptr) → hash.heap.link cell = none)

namespace Represents

variable {hash : LRUHash ν} {table : Table ν}

theorem new (virt : Virtual ν κ) (timeslotSize bucketSize : ℕ) :
    Represents virt (LRUHash.new timeslotSize bucketSize) (Table.new timeslotSize) where
  wf := Table.new_wf timeslotSize
  timeslotSize := rfl
  currTick := rfl
  chains _ _ := rfl
  backs _ _ := trivial
  slots _ _ := rfl
  expired := rfl
  detached _ member := by cases member
  roots _ _ := ⟨rfl, fun _ => rfl, fun _ => rfl⟩

/-- Only the hash values of the live nodes matter to the chains. -/
theorem congr {new : Virtual ν κ} (rep : Represents virt hash table)
    (same : ∀ node ∈ table.live.map Prod.fst, new.hash node = virt.hash node) :
    Represents new hash table := by
  have nodes : ∀ ptr, table.bucketNodes new hash.bucketSize ptr =
      table.bucketNodes virt hash.bucketSize ptr := by
    intro ptr
    refine List.filter_congr fun node member => ?_
    rw [same node member]
  exact ⟨rep.wf, rep.timeslotSize, rep.currTick,
    fun ptr inside => nodes ptr ▸ rep.chains ptr inside,
    fun ptr inside => nodes ptr ▸ rep.backs ptr inside, rep.slots, rep.expired, rep.detached,
    rep.roots⟩

/-! ## Searching -/

/-- Walking a chain answers its first node with the hash value and the key. -/
theorem search_chain (virt : Virtual ν κ) (hv : UInt64) (key : κ) (heap : Heap ν)
    {root : Cell ν} {nodes : List ν} (chain : Linked.Chain heap.next root (nodes.map .node))
    {fuel : ℕ} (enough : nodes.length < fuel) :
    heap.search virt hv key fuel (heap.next root) =
      some ((nodes.find? fun node => virt.Answers hv key node).map .node) := by
  induction nodes generalizing root fuel with
  | nil =>
      obtain ⟨fuel, rfl⟩ := Nat.exists_eq_succ_of_ne_zero (Nat.ne_zero_of_lt enough)
      rw [show heap.next root = none from chain]
      rfl
  | cons node nodes ih =>
      obtain ⟨fuel, rfl⟩ := Nat.exists_eq_succ_of_ne_zero (Nat.ne_zero_of_lt enough)
      rw [chain.1, Heap.search]
      change (if virt.Answers hv key node then _ else _) = _
      by_cases found : virt.Answers hv key node
      · simp only [found, ↓reduceIte, decide_true, List.find?_cons_of_pos, Option.map_some]
      · simp only [found, ↓reduceIte, decide_false, Bool.false_eq_true, not_false_eq_true,
          List.find?_cons_of_neg]
        exact ih chain.2 (Nat.lt_of_succ_lt_succ enough)

/-- **Looking up.** The walk through one bucket finds the most recent put of all
live nodes with the hash value and the key. -/
theorem get (rep : Represents virt hash table) (hv : UInt64) (key : κ)
    (buckets : 0 < hash.bucketSize) {fuel : ℕ} (enough : table.live.length < fuel) :
    hash.get virt fuel hv key = some ((table.get virt hv key).map .node) := by
  have short : (table.bucketNodes virt hash.bucketSize (hv.toNat % hash.bucketSize)).length <
      fuel := by
    refine Nat.lt_of_le_of_lt (List.length_filter_le _ _) ?_
    rwa [List.length_map]
  rw [LRUHash.get, search_chain virt hv key hash.heap
    (rep.chains _ (Nat.mod_lt _ buckets)) short]
  rw [Table.bucketNodes, List.find?_filter, List.find?_map, Table.get]
  congr 3
  refine congrArg (fun test => table.live.find? test) (funext fun entry => ?_)
  simp only [Function.comp_apply, decide_eq_true_eq]
  refine decide_eq_decide.mpr ⟨fun both => both.2, fun both => ⟨?_, both⟩⟩
  rw [both.1]

/-! ## Putting -/

/-- The node a path is extended by is not on it. -/
theorem fresh_of_not_mem {root : Cell ν} {nodes : List ν} {node : ν}
    (offRoot : Cell.node node ≠ root) (fresh : node ∉ nodes) :
    Cell.node node ∉ root :: nodes.map Cell.node := by
  intro member
  rcases List.mem_cons.mp member with same | member
  · exact offRoot same
  · obtain ⟨other, inside, named⟩ := List.mem_map.mp member
    cases named
    exact fresh inside

/-- A root is on no path but its own. -/
theorem root_of_mem {root cell : Cell ν} {nodes : List ν}
    (member : cell ∈ root :: nodes.map Cell.node) (bare : ∀ node, cell ≠ .node node) :
    cell = root := by
  rcases List.mem_cons.mp member with same | member
  · exact same
  · obtain ⟨node, -, named⟩ := List.mem_map.mp member
    exact (bare node named.symm).elim

theorem root_not_mem {root cell : Cell ν} {nodes : List ν} (bare : ∀ node, cell ≠ .node node)
    (apart : cell ≠ root) : cell ∉ root :: nodes.map Cell.node := fun member =>
  apart (root_of_mem member bare)

/-- A node that is not live is in no bucket. -/
theorem not_mem_bucketNodes {node : ν} (fresh : node ∉ table.live.map Prod.fst) (buckets ptr : ℕ) :
    node ∉ table.bucketNodes virt buckets ptr := fun member =>
  fresh (Table.mem_bucketNodes.mp member).1

/-- The forward pointer of a bucket root names a live node of that bucket. -/
theorem next_bucket (rep : Represents virt hash table) {ptr : ℕ} (inside : ptr < hash.bucketSize)
    {cell : Cell ν} (points : hash.heap.next (.bucket ptr) = some cell) :
    ∃ node ∈ table.bucketNodes virt hash.bucketSize ptr, Cell.node node = cell :=
  List.mem_map.mp ((rep.chains ptr inside).step_mem List.mem_cons_self points)

variable [DecidableEq ν]

section Putting

variable {node : ν}

/-- The node goes in front of the chain of its bucket. -/
theorem chains_put (rep : Represents virt hash table) (fresh : node ∉ table.live.map Prod.fst)
    (tp : ℕ) {ptr : ℕ} (inside : ptr < hash.bucketSize) :
    Linked.Chain (Linked.push hash.heap.next (.bucket ((virt.hash node).toNat % hash.bucketSize))
      (.node node)) (.bucket ptr)
        ((Table.bucketNodes virt hash.bucketSize ptr
          { table with live := (node, tp) :: table.live }).map .node) := by
  have off : Cell.node node ∉ .bucket ptr ::
      (table.bucketNodes virt hash.bucketSize ptr).map Cell.node :=
    fresh_of_not_mem (by simp) (not_mem_bucketNodes fresh _ _)
  rw [Table.bucketNodes_cons]
  by_cases same : (virt.hash node).toNat % hash.bucketSize = ptr
  · rw [if_pos same, same, List.map_cons]
    exact (rep.chains ptr inside).push off
  · rw [if_neg same]
    exact (rep.chains ptr inside).push_other (root_not_mem (by simp) (by simpa using same)) off

theorem backs_put (rep : Represents virt hash table) (buckets : 0 < hash.bucketSize)
    (fresh : node ∉ table.live.map Prod.fst) (tp : ℕ) {ptr : ℕ} (inside : ptr < hash.bucketSize) :
    Linked.Back (Linked.pushBack hash.heap.next hash.heap.prev
      (.bucket ((virt.hash node).toNat % hash.bucketSize)) (.node node)) (.bucket ptr)
        ((Table.bucketNodes virt hash.bucketSize ptr
          { table with live := (node, tp) :: table.live }).map .node) := by
  have off : Cell.node node ∉ .bucket ptr ::
      (table.bucketNodes virt hash.bucketSize ptr).map Cell.node :=
    fresh_of_not_mem (by simp) (not_mem_bucketNodes fresh _ _)
  rw [Table.bucketNodes_cons]
  by_cases same : (virt.hash node).toNat % hash.bucketSize = ptr
  · rw [if_pos same, same, List.map_cons]
    exact (rep.backs ptr inside).pushBack (rep.chains ptr inside) off
  · rw [if_neg same]
    refine (rep.backs ptr inside).frame fun cell member => Linked.pushBack_of_ne ?_ fun points => ?_
    · rintro rfl
      exact off (List.mem_cons_of_mem _ member)
    · -- the node whose back pointer is written is in the bucket of the new node
      obtain ⟨first, here, rfl⟩ := List.mem_map.mp member
      obtain ⟨second, there, named⟩ := rep.next_bucket (Nat.mod_lt _ buckets) points
      cases named
      exact same ((Table.mem_bucketNodes.mp there).2.symm.trans (Table.mem_bucketNodes.mp here).2)

/-- The node goes in front of the list of its timeslot. -/
theorem slots_put (rep : Represents virt hash table) (fresh : node ∉ table.live.map Prod.fst)
    (slot : ℕ) {tp : ℕ} (inside : tp < hash.timeslotSize) :
    Linked.Chain (Linked.push hash.heap.link (.timeslot slot) (.node node)) (.timeslot tp)
      ((Table.slotNodes tp { table with live := (node, slot) :: table.live }).map .node) := by
  have off : Cell.node node ∉ .timeslot tp :: (table.slotNodes tp).map Cell.node :=
    fresh_of_not_mem (by simp) fun member => fresh (Table.mem_live_of_mem_slotNodes member)
  rw [Table.slotNodes_cons]
  by_cases same : slot = tp
  · rw [if_pos same, same, List.map_cons]
    exact (rep.slots tp inside).push off
  · rw [if_neg same]
    exact (rep.slots tp inside).push_other (root_not_mem (by simp) (by simpa using same)) off

/-- A back pointer is written only in the new node and in a live one. -/
theorem prev_put (rep : Represents virt hash table) (buckets : 0 < hash.bucketSize)
    {cell : Cell ν} (notNew : cell ≠ .node node)
    (notLive : ∀ live ∈ table.live.map Prod.fst, cell ≠ .node live) :
    Linked.pushBack hash.heap.next hash.heap.prev
      (.bucket ((virt.hash node).toNat % hash.bucketSize)) (.node node) cell =
        hash.heap.prev cell := by
  refine Linked.pushBack_of_ne notNew fun points => ?_
  obtain ⟨live, inside, named⟩ := rep.next_bucket (Nat.mod_lt _ buckets) points
  exact notLive live (Table.mem_bucketNodes.mp inside).1 named.symm

/-- **Putting.** A refused put changes nothing; an accepted one puts the node in
front of its bucket chain and of its timeslot list. -/
theorem put (rep : Represents virt hash table) (buckets : 0 < hash.bucketSize)
    (fresh : node ∉ table.nodes) (tick : ℕ) :
    (hash.put virt tick node).1 = (table.put tick node).1 ∧
      Represents virt (hash.put virt tick node).2 (table.put tick node).2 := by
  by_cases short : tick < table.timeslotSize
  swap
  · have long := Nat.not_lt.mp short
    rw [Table.put_of_le long, LRUHash.put, rep.timeslotSize]
    simp only [long, ↓reduceIte]
    exact ⟨trivial, rep⟩
  have notLive : node ∉ table.live.map Prod.fst :=
    fun member => fresh (List.mem_append_left _ member)
  have notExp : node ∉ table.exp := fun member => fresh (List.mem_append_right _ member)
  have accepted : ¬ hash.timeslotSize ≤ tick := by rw [rep.timeslotSize]; omega
  have wf := rep.wf.put fresh tick
  rw [Table.put_of_lt short] at wf ⊢
  simp only [LRUHash.put, accepted, ↓reduceIte, true_and]
  have slotIs : sizeT (tick + hash.currTick) % hash.timeslotSize = table.slotFor tick := by
    rw [Table.slotFor, rep.currTick, rep.timeslotSize]
  rw [slotIs]
  have prev := Heap.attach_prev hash.heap
    (.bucket ((virt.hash node).toNat % hash.bucketSize)) (.node node)
  refine ⟨wf, rep.timeslotSize, rep.currTick, fun ptr inside => rep.chains_put notLive _ inside,
    fun ptr inside => ?_, fun tp inside => rep.slots_put notLive _ inside, ?_,
    fun other member => ?_, fun cell bare => ⟨?_, fun other => ?_, fun isBucket => ?_⟩⟩
  · change Linked.Back (hash.heap.attach _ _).prev _ _
    rw [prev]
    exact rep.backs_put buckets notLive _ inside
  · exact rep.expired.push_other (root_not_mem (by simp) (by simp))
      (fresh_of_not_mem (by simp) notExp)
  · have offNode : Cell.node other ≠ Cell.node node := fun same =>
      notExp (Cell.node.inj same ▸ member)
    have offRoot : Cell.node other ≠ Cell.bucket ((virt.hash node).toNat % hash.bucketSize) := by
      simp
    obtain ⟨noNext, noPrev⟩ := rep.detached other member
    refine ⟨(Linked.push_of_ne offRoot offNode).trans noNext, ?_⟩
    change (hash.heap.attach _ _).prev _ = _
    rw [prev, rep.prev_put buckets offNode]
    · exact noPrev
    · intro live isLive named
      exact rep.wf.not_mem_exp isLive (Cell.node.inj named ▸ member)
  · change (hash.heap.attach _ _).prev _ = _
    rw [prev, rep.prev_put buckets (bare node) fun live _ => bare live]
    exact (rep.roots cell bare).1
  · exact (Linked.push_of_ne (other _) (bare node)).trans ((rep.roots cell bare).2.1 other)
  · refine (Linked.push_of_ne ?_ (bare node)).trans ((rep.roots cell bare).2.2 isBucket)
    rintro rfl
    obtain ⟨ptr, named⟩ := isBucket
    cases named

end Putting

/-! ## Expiring -/

/-- The heap after the first node of a timeslot is popped, detached and pushed on
the expired list. -/
def expireHeap (heap : Heap ν) (tp : ℕ) (node : ν) : Heap ν :=
  ({ heap with link := Linked.pop heap.link (.timeslot tp) }.detach (.node node)).pushLink
    .expNode (.node node)

theorem expireHeap_next (heap : Heap ν) (tp : ℕ) (node : ν) :
    (expireHeap heap tp node).next = Linked.unlink heap.next heap.prev (.node node) :=
  Heap.detach_next _ _

theorem expireHeap_prev (heap : Heap ν) (tp : ℕ) (node : ν) :
    (expireHeap heap tp node).prev = Linked.unlink heap.prev heap.next (.node node) :=
  Heap.detach_prev _ _

theorem expireHeap_link (heap : Heap ν) (tp : ℕ) (node : ν) :
    (expireHeap heap tp node).link =
      Linked.push (Linked.pop heap.link (.timeslot tp)) .expNode (.node node) := rfl

section Expiring

variable {node : ν} {home : ℕ}

omit [DecidableEq ν] in
/-- The paths of different buckets have no cell in common. -/
theorem buckets_disjoint {ptr : ℕ} (apart : home ≠ ptr) {cell : Cell ν}
    (here : cell ∈ .bucket ptr :: (table.bucketNodes virt hash.bucketSize ptr).map Cell.node) :
    cell ∉ .bucket home :: (table.bucketNodes virt hash.bucketSize home).map Cell.node := by
  intro there
  rcases List.mem_cons.mp here with rfl | here
  · exact apart (Cell.bucket.inj (root_of_mem there (by simp))).symm
  · obtain ⟨first, inFirst, rfl⟩ := List.mem_map.mp here
    rcases List.mem_cons.mp there with named | there
    · cases named
    · obtain ⟨second, inSecond, named⟩ := List.mem_map.mp there
      cases named
      exact apart ((Table.mem_bucketNodes.mp inSecond).2.symm.trans
        (Table.mem_bucketNodes.mp inFirst).2)

omit [DecidableEq ν] in
/-- The path of a bucket, split at one of its nodes. -/
theorem exists_split (rep : Represents virt hash table) (inside : home < hash.bucketSize)
    (filed : node ∈ table.bucketNodes virt hash.bucketSize home) :
    ∃ front back, table.bucketNodes virt hash.bucketSize home = front ++ node :: back ∧
      Linked.Chain hash.heap.next (.bucket home)
        (front.map .node ++ .node node :: back.map .node) ∧
      Linked.Back hash.heap.prev (.bucket home)
        (front.map .node ++ .node node :: back.map .node) := by
  obtain ⟨front, back, split⟩ := List.append_of_mem filed
  have chain := rep.chains home inside
  have path := rep.backs home inside
  rw [split, List.map_append, List.map_cons] at chain path
  exact ⟨front, back, split, chain, path⟩

/-- Unlinking a node writes to no cell off the path of its bucket. -/
theorem unlink_off (rep : Represents virt hash table) (inside : home < hash.bucketSize)
    (filed : node ∈ table.bucketNodes virt hash.bucketSize home) {cell : Cell ν}
    (off : cell ∉ .bucket home :: (table.bucketNodes virt hash.bucketSize home).map Cell.node) :
    Linked.unlink hash.heap.next hash.heap.prev (.node node) cell = hash.heap.next cell ∧
      Linked.unlink hash.heap.prev hash.heap.next (.node node) cell = hash.heap.prev cell := by
  obtain ⟨front, back, split, chain, path⟩ := rep.exists_split inside filed
  rw [split, List.map_append, List.map_cons] at off
  exact Linked.unlink_frame chain path off

/-- The node leaves the path of its bucket. -/
theorem unlink_home (rep : Represents virt hash table) (inside : home < hash.bucketSize)
    (filed : node ∈ table.bucketNodes virt hash.bucketSize home) :
    Linked.Chain (Linked.unlink hash.heap.next hash.heap.prev (.node node)) (.bucket home)
        (((table.expireNode node).bucketNodes virt hash.bucketSize home).map .node) ∧
      Linked.Back (Linked.unlink hash.heap.prev hash.heap.next (.node node)) (.bucket home)
        (((table.expireNode node).bucketNodes virt hash.bucketSize home).map .node) := by
  obtain ⟨front, back, split, chain, path⟩ := rep.exists_split inside filed
  have nodup : (front ++ node :: back).Nodup :=
    split ▸ (rep.wf.live_nodup.filter _ : (table.bucketNodes virt hash.bucketSize home).Nodup)
  rw [Table.bucketNodes_expireNode, split, Table.filter_ne_split nodup, List.map_append]
  exact ⟨chain.unlink path, Linked.Back.unlink chain path⟩

/-- The other paths stay as they were. -/
theorem unlink_away (rep : Represents virt hash table) (inside : home < hash.bucketSize)
    (filed : node ∈ table.bucketNodes virt hash.bucketSize home) {ptr : ℕ}
    (bounded : ptr < hash.bucketSize) (apart : home ≠ ptr) :
    Linked.Chain (Linked.unlink hash.heap.next hash.heap.prev (.node node)) (.bucket ptr)
        (((table.expireNode node).bucketNodes virt hash.bucketSize ptr).map .node) ∧
      Linked.Back (Linked.unlink hash.heap.prev hash.heap.next (.node node)) (.bucket ptr)
        (((table.expireNode node).bucketNodes virt hash.bucketSize ptr).map .node) := by
  have stays : (table.expireNode node).bucketNodes virt hash.bucketSize ptr =
      table.bucketNodes virt hash.bucketSize ptr := by
    rw [Table.bucketNodes_expireNode]
    exact Table.filter_ne_of_not_mem fun member => apart
      ((Table.mem_bucketNodes.mp filed).2.symm.trans (Table.mem_bucketNodes.mp member).2)
  rw [stays]
  constructor
  · exact (rep.chains ptr bounded).frame fun cell member =>
      (rep.unlink_off inside filed (buckets_disjoint apart member)).1
  · exact (rep.backs ptr bounded).frame fun cell member =>
      (rep.unlink_off inside filed (buckets_disjoint apart (List.mem_cons_of_mem _ member))).2

/-- The node leaves the list of its timeslot, and the other lists stay as they were. -/
theorem slots_expire (rep : Represents virt hash table) {tp : ℕ} {rest : List ν}
    (slot : table.slotNodes tp = node :: rest) {other : ℕ} (bounded : other < hash.timeslotSize) :
    Linked.Chain (expireHeap hash.heap tp node).link (.timeslot other)
      (((table.expireNode node).slotNodes other).map .node) := by
  have popped : Linked.Chain (Linked.pop hash.heap.link (.timeslot tp)) (.timeslot other)
      (((table.expireNode node).slotNodes other).map .node) := by
    have path := rep.slots other bounded
    by_cases same : tp = other
    · subst same
      rw [slot] at path
      rw [(Table.drain_expireNode rep.wf slot).2]
      exact path.pop
    · have filed : node ∈ table.slotNodes tp := slot ▸ List.mem_cons_self
      have unmoved : (table.expireNode node).slotNodes other = table.slotNodes other := by
        rw [Table.slotNodes_expireNode]
        exact Table.filter_ne_of_not_mem fun member => same
          (rep.wf.slot_unique (Table.mem_slotNodes.mp filed) (Table.mem_slotNodes.mp member))
      rw [unmoved]
      exact path.pop_other (root_not_mem (by simp) (by simpa using same))
  rw [expireHeap_link]
  apply popped.push_other
  · exact root_not_mem (by simp) (by simp)
  · rw [Table.slotNodes_expireNode]
    exact fresh_of_not_mem (by simp) (by simp)

/-- **Expiring one node.** The node leaves its bucket chain and its timeslot list
and heads the expired list; every other path stays as it was. -/
theorem expireNode (rep : Represents virt hash table) (buckets : 0 < hash.bucketSize) {tp : ℕ}
    {rest : List ν} (slot : table.slotNodes tp = node :: rest) :
    Represents virt { hash with heap := expireHeap hash.heap tp node }
      (table.expireNode node) := by
  have live : node ∈ table.live.map Prod.fst :=
    Table.mem_live_of_mem_slotNodes (slot ▸ List.mem_cons_self)
  generalize bucket : (virt.hash node).toNat % hash.bucketSize = home
  have inside : home < hash.bucketSize := bucket ▸ Nat.mod_lt _ buckets
  have filed : node ∈ table.bucketNodes virt hash.bucketSize home :=
    Table.mem_bucketNodes.mpr ⟨live, bucket⟩
  have unlinked : ∀ ptr < hash.bucketSize,
      Linked.Chain (Linked.unlink hash.heap.next hash.heap.prev (.node node)) (.bucket ptr)
        (((table.expireNode node).bucketNodes virt hash.bucketSize ptr).map .node) ∧
      Linked.Back (Linked.unlink hash.heap.prev hash.heap.next (.node node)) (.bucket ptr)
        (((table.expireNode node).bucketNodes virt hash.bucketSize ptr).map .node) := by
    intro ptr bounded
    by_cases same : home = ptr
    · exact same ▸ rep.unlink_home inside filed
    · exact rep.unlink_away inside filed bounded same
  refine ⟨rep.wf.expireNode live, rep.timeslotSize, rep.currTick, fun ptr bounded => ?_,
    fun ptr bounded => ?_, fun other => rep.slots_expire slot, ?_, fun other member => ?_,
    fun cell bare => ?_⟩
  · rw [expireHeap_next]
    exact (unlinked ptr bounded).1
  · rw [expireHeap_prev]
    exact (unlinked ptr bounded).2
  · rw [expireHeap_link]
    have kept : Linked.Chain (Linked.pop hash.heap.link (.timeslot tp)) .expNode
        (table.exp.map .node) := rep.expired.pop_other (root_not_mem (by simp) (by simp))
    exact kept.push (fresh_of_not_mem (by simp) (rep.wf.not_mem_exp live))
  · rw [expireHeap_next, expireHeap_prev]
    rcases List.mem_cons.mp member with rfl | member
    · exact ⟨Linked.unlink_self, Linked.unlink_self⟩
    · have off : Cell.node other ∉ .bucket home ::
          (table.bucketNodes virt hash.bucketSize home).map Cell.node :=
        fresh_of_not_mem (by simp) fun inBucket =>
          rep.wf.not_mem_exp (Table.mem_bucketNodes.mp inBucket).1 member
      obtain ⟨sameNext, samePrev⟩ := rep.unlink_off inside filed off
      rw [sameNext, samePrev]
      exact rep.detached other member
  · obtain ⟨prev, next, link⟩ := rep.roots cell bare
    rw [expireHeap_next, expireHeap_prev, expireHeap_link]
    refine ⟨?_, fun other => ?_, ?_⟩
    · refine (Linked.unlink_of_ne (bare node) fun points => ?_).trans prev
      have onPath : Cell.node node ∈ .bucket home ::
          (table.bucketNodes virt hash.bucketSize home).map Cell.node :=
        List.mem_cons_of_mem _ (List.mem_map_of_mem filed)
      obtain ⟨after, -, named⟩ := List.mem_map.mp ((rep.chains home inside).step_mem onPath points)
      exact bare after named.symm
    · rw [(rep.unlink_off inside filed (root_not_mem bare (other home))).1]
      exact next other
    · rintro ⟨ptr, rfl⟩
      rw [Linked.push_of_ne (by simp) (by simp), Linked.pop_of_ne (by simp)]
      exact link ⟨ptr, rfl⟩

end Expiring

/-- **Draining one timeslot.** With a step of fuel for each live node and one more,
the loop ends and has expired the timeslot's nodes. -/
theorem drain (rep : Represents virt hash table) (buckets : 0 < hash.bucketSize) {tp : ℕ}
    (inside : tp < hash.timeslotSize) {fuel : ℕ} (enough : (table.slotNodes tp).length < fuel) :
    ∃ drained, hash.drain tp fuel = some drained ∧ Represents virt drained (table.drain tp) ∧
      drained.bucketSize = hash.bucketSize := by
  obtain ⟨nodes, slot⟩ : ∃ nodes, table.slotNodes tp = nodes := ⟨_, rfl⟩
  rw [slot] at enough
  induction nodes generalizing hash table fuel with
  | nil =>
      obtain ⟨fuel, rfl⟩ := Nat.exists_eq_succ_of_ne_zero (Nat.ne_zero_of_lt enough)
      have path := rep.slots tp inside
      rw [slot] at path
      have none : table.live.filter (fun entry => entry.2 = tp) = [] := List.map_eq_nil_iff.mp slot
      have all : table.live.filter (fun entry => entry.2 ≠ tp) = table.live :=
        List.filter_eq_self.mpr fun entry member => by
          simpa using List.filter_eq_nil_iff.mp none entry member
      have same : table.drain tp = table := by
        rw [Table.drain, none, all]
        rfl
      refine ⟨hash, ?_, same.symm ▸ rep, rfl⟩
      simp only [LRUHash.drain, Heap.popLink_nil _ _ path]
  | cons node rest ih =>
      obtain ⟨fuel, rfl⟩ := Nat.exists_eq_succ_of_ne_zero (Nat.ne_zero_of_lt enough)
      have path := rep.slots tp inside
      rw [slot] at path
      obtain ⟨sameDrain, sameRest⟩ := Table.drain_expireNode rep.wf slot
      obtain ⟨drained, finished, represented, bucketSize⟩ :=
        ih (rep.expireNode buckets slot) buckets inside (Nat.lt_of_succ_lt_succ enough)
          sameRest
      refine ⟨drained, ?_, sameDrain ▸ represented, bucketSize⟩
      rw [LRUHash.drain, Heap.popLink_cons _ _ path]
      exact finished

/-- **Sweeping.** The outer loop expires the timeslots it visits, in its order. -/
theorem sweep (rep : Represents virt hash table) (buckets : 0 < hash.bucketSize)
    {slot : ℕ → ℕ} {i count : ℕ} (inside : ∀ j, i ≤ j → j < i + count → slot j < hash.timeslotSize)
    {fuel : ℕ} (enough : table.live.length < fuel) :
    ∃ swept, hash.sweep slot fuel i count = some swept ∧
      Represents virt swept (table.sweep slot i count) ∧ swept.bucketSize = hash.bucketSize := by
  induction count generalizing hash table i with
  | zero => exact ⟨hash, rfl, rep, rfl⟩
  | succ count ih =>
      obtain ⟨drained, finished, represented, bucketSize⟩ :=
        rep.drain buckets (inside i (Nat.le_refl i) (by omega))
          (Nat.lt_of_le_of_lt (Table.slotNodes_length_le (slot i) table) enough)
      have bounded : ∀ j, i + 1 ≤ j → j < i + 1 + count → slot j < drained.timeslotSize := by
        intro j lower upper
        rw [represented.timeslotSize, Table.drain_timeslotSize, ← rep.timeslotSize]
        exact inside j (by omega) (by omega)
      have shorter : (table.drain (slot i)).live.length < fuel :=
        Nat.lt_of_le_of_lt (List.length_filter_le _ _) enough
      obtain ⟨swept, ended, final, size⟩ :=
        ih represented (bucketSize ▸ buckets) bounded shorter
      exact ⟨swept, by rw [LRUHash.sweep, finished, Option.bind_some, ended], final,
        size.trans bucketSize⟩

theorem prog (rep : Represents virt hash table) (buckets : 0 < hash.bucketSize)
    (slots : 0 < hash.timeslotSize) (tick : ℕ) {fuel : ℕ} (enough : table.live.length < fuel) :
    ∃ after, hash.prog fuel tick = some after ∧ Represents virt after (table.prog tick) ∧
      after.bucketSize = hash.bucketSize := by
  have slotIs : (fun i => sizeT (hash.currTick + i) % hash.timeslotSize) = table.slotAt := by
    funext i
    rw [rep.currTick, rep.timeslotSize, Table.slotAt]
  have inside : ∀ j, 0 ≤ j → j < 0 + tick → table.slotAt j < hash.timeslotSize := by
    intro j _ _
    rw [rep.timeslotSize]
    exact Nat.mod_lt _ (rep.timeslotSize ▸ slots)
  obtain ⟨swept, finished, represented, bucketSize⟩ := rep.sweep buckets inside enough
  refine ⟨{ swept with currTick := sizeT (swept.currTick + tick) }, ?_, ?_, bucketSize⟩
  · rw [LRUHash.prog, slotIs, finished, Option.map_some]
  · refine ⟨⟨represented.wf.nodup, represented.wf.inside⟩, represented.timeslotSize, ?_,
      represented.chains, represented.backs, represented.slots, represented.expired,
      represented.detached, represented.roots⟩
    change sizeT (swept.currTick + tick) = sizeT (table.currTick + tick)
    rw [represented.currTick, Table.sweep_currTick]

theorem purge (rep : Represents virt hash table) (buckets : 0 < hash.bucketSize) {fuel : ℕ}
    (enough : table.live.length < fuel) :
    ∃ after, hash.purge fuel = some after ∧ Represents virt after table.purge ∧
      after.bucketSize = hash.bucketSize := by
  have inside : ∀ j, 0 ≤ j → j < 0 + hash.timeslotSize → j < hash.timeslotSize := by omega
  have swept := rep.sweep buckets inside enough
  rw [LRUHash.purge, Table.purge, ← rep.timeslotSize]
  exact swept

/-- **Popping.** The head of the expired list is answered and taken off. -/
theorem pop (rep : Represents virt hash table) :
    hash.pop.1 = table.pop.1.map .node ∧ Represents virt hash.pop.2 table.pop.2 := by
  obtain ⟨size, tick, live, exp⟩ := table
  have wf := rep.wf.pop
  cases exp with
  | nil =>
      have empty : hash.pop = (none, hash) := by
        rw [LRUHash.pop, Heap.popLink_nil _ _ rep.expired]
      rw [empty]
      exact ⟨rfl, rep⟩
  | cons node rest =>
      have popped : hash.pop = (some (.node node),
          { hash with heap := { hash.heap with link := Linked.pop hash.heap.link .expNode } }) := by
        rw [LRUHash.pop, Heap.popLink_cons _ _ rep.expired]
      rw [popped]
      refine ⟨rfl, wf, rep.timeslotSize, rep.currTick, rep.chains, rep.backs, ?_,
        rep.expired.pop, fun other member => rep.detached other (List.mem_cons_of_mem _ member),
        fun cell bare => ?_⟩
      · intro tp inside
        refine (rep.slots tp inside).frame fun cell member => Linked.pop_of_ne ?_
        rintro rfl
        cases root_of_mem member (by simp)
      · obtain ⟨prev, next, link⟩ := rep.roots cell bare
        refine ⟨prev, next, ?_⟩
        rintro ⟨ptr, rfl⟩
        exact (Linked.pop_of_ne (by simp)).trans (link ⟨ptr, rfl⟩)

end Represents

end Devourer
