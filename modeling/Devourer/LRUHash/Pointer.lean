import Mathlib.Algebra.Group.Nat.Defs
import Mathlib.Logic.Function.Basic

/-! # The timer hash table over explicit pointers

`LRUHash` keeps its nodes in two intrusive structures at once: a doubly linked
chain for each bucket through `next_` and `prev_`, and a singly linked list for
each timeslot through `link_`, which also threads the list of expired nodes.
The definitions here act on a heap of these three fields, one assignment for one
assignment. A loop that follows pointers is given fuel and answers nothing when
the fuel runs out; that it never does is a theorem about reachable tables.

Arithmetic on `size_t` is taken modulo `2 ^ 64`.
-/

namespace Devourer

open Function

/-- A value of type `size_t`. -/
def sizeT (value : ℕ) : ℕ := value % 2 ^ 64

theorem sizeT_of_lt {value : ℕ} (bounded : value < 2 ^ 64) : sizeT value = value :=
  Nat.mod_eq_of_lt bounded

/-- The virtual functions of the nodes: `hash()` and `match(key, len)`. A key
stands for the bytes `key` points to together with their number. -/
structure Virtual (ν κ : Type) where
  hash : ν → UInt64
  matches? : ν → κ → Bool

/-- A lookup with the hash value and the key accepts the node. -/
def Virtual.Answers {ν κ : Type} (virt : Virtual ν κ) (hv : UInt64) (key : κ) (node : ν) : Prop :=
  virt.hash node = hv ∧ virt.matches? node key = true

instance {ν κ : Type} (virt : Virtual ν κ) (hv : UInt64) (key : κ) :
    DecidablePred (virt.Answers hv key) := fun _ => instDecidableAnd

/-- The `Node` objects of one table: the roots of its buckets and timeslots, the
root `exp_node_` of the expired list, and the nodes its clients put. -/
inductive Cell (ν : Type) where
  | bucket (index : ℕ)
  | timeslot (index : ℕ)
  | expNode
  | node (id : ν)
  deriving DecidableEq

/-- The pointer fields of all nodes. -/
structure Heap (ν : Type) where
  next : Cell ν → Option (Cell ν)
  prev : Cell ν → Option (Cell ν)
  link : Cell ν → Option (Cell ν)

variable {ν κ : Type}

namespace Cell

/-- `hash()` of any node; a `NodeRoot` answers zero. -/
def hash (virt : Virtual ν κ) : Cell ν → UInt64
  | node id => virt.hash id
  | _ => 0

/-- `match()` of any node; a `NodeRoot` matches nothing. -/
def matches? (virt : Virtual ν κ) (key : κ) : Cell ν → Bool
  | node id => virt.matches? id key
  | _ => false

end Cell

namespace Heap

/-- Every node as its constructor leaves it. -/
def fresh : Heap ν := ⟨fun _ => none, fun _ => none, fun _ => none⟩

/-- `Node::search`, from the node the loop variable points to. -/
def search (heap : Heap ν) (virt : Virtual ν κ) (hv : UInt64) (key : κ) :
    ℕ → Option (Cell ν) → Option (Option (Cell ν))
  | 0, _ => none
  | _ + 1, none => some none
  | fuel + 1, some cell =>
      if cell.hash virt = hv ∧ cell.matches? virt key = true then some (some cell)
      else heap.search virt hv key fuel (heap.next cell)

variable [DecidableEq ν]

/-- `Node::attach`. -/
def attach (heap : Heap ν) (this node : Cell ν) : Heap ν :=
  let next := heap.next this
  let nodePrev := update heap.prev node (some this)
  { heap with
    prev := match next with
      | some following => update nodePrev following (some node)
      | none => nodePrev
    next := update (update heap.next node next) this (some node) }

/-- `Node::detach`. -/
def detach (heap : Heap ν) (this : Cell ν) : Heap ν :=
  let next := heap.next this
  let prev := heap.prev this
  { heap with
    prev := update (match next with
      | some following => update heap.prev following prev
      | none => heap.prev) this none
    next := update (match prev with
      | some before => update heap.next before next
      | none => heap.next) this none }

/-- `Node::push_link`. -/
def pushLink (heap : Heap ν) (this node : Cell ν) : Heap ν :=
  { heap with link := update (update heap.link node (heap.link this)) this (some node) }

/-- `Node::pop_link`; the popped node keeps its own link. -/
def popLink (heap : Heap ν) (this : Cell ν) : Option (Cell ν) × Heap ν :=
  match heap.link this with
  | some node => (some node, { heap with link := update heap.link this (heap.link node) })
  | none => (none, heap)

end Heap

/-- The table: the sizes of its two vectors, the current tick, and the pointer
fields of the roots it owns and of the nodes they lead to. -/
structure LRUHash (ν : Type) where
  timeslotSize : ℕ
  bucketSize : ℕ
  currTick : ℕ
  heap : Heap ν

namespace LRUHash

/-- `DEFAULT_BUCKET_SIZE`. -/
def defaultBucketSize : ℕ := 1031

/-- The constructor. -/
def new (timeslotSize bucketSize : ℕ) : LRUHash ν where
  timeslotSize := timeslotSize
  bucketSize := if bucketSize = 0 then defaultBucketSize else bucketSize
  currTick := 0
  heap := .fresh

/-- `LRUHash::get`. -/
def get (virt : Virtual ν κ) (fuel : ℕ) (hv : UInt64) (key : κ) (table : LRUHash ν) :
    Option (Option (Cell ν)) :=
  let ptr := hv.toNat % table.bucketSize
  table.heap.search virt hv key fuel (table.heap.next (.bucket ptr))

variable [DecidableEq ν]

/-- `LRUHash::put`. -/
def put (virt : Virtual ν κ) (tick : ℕ) (node : ν) (table : LRUHash ν) : Bool × LRUHash ν :=
  if table.timeslotSize ≤ tick then (false, table)
  else
    let ptr := (virt.hash node).toNat % table.bucketSize
    let attached := table.heap.attach (.bucket ptr) (.node node)
    let tp := sizeT (tick + table.currTick) % table.timeslotSize
    (true, { table with heap := attached.pushLink (.timeslot tp) (.node node) })

/-- The inner loop of `prog` and of `purge`: pop the nodes of one timeslot,
detach each and push it on the expired list. -/
def drain (tp : ℕ) : ℕ → LRUHash ν → Option (LRUHash ν)
  | 0, _ => none
  | fuel + 1, table =>
      match table.heap.popLink (.timeslot tp) with
      | (none, heap) => some { table with heap := heap }
      | (some node, heap) =>
          drain tp fuel { table with heap := (heap.detach node).pushLink .expNode node }

/-- The outer loop: drain the timeslots `slot i` for `count` values of the loop
variable from `i` on. -/
def sweep (slot : ℕ → ℕ) (fuel : ℕ) : ℕ → ℕ → LRUHash ν → Option (LRUHash ν)
  | _, 0, table => some table
  | i, count + 1, table => (drain (slot i) fuel table).bind (sweep slot fuel (i + 1) count)

/-- `LRUHash::prog`. -/
def prog (fuel tick : ℕ) (table : LRUHash ν) : Option (LRUHash ν) :=
  (table.sweep (fun i => sizeT (table.currTick + i) % table.timeslotSize) fuel 0 tick).map
    fun swept => { swept with currTick := sizeT (swept.currTick + tick) }

/-- `LRUHash::pop`. -/
def pop (table : LRUHash ν) : Option (Cell ν) × LRUHash ν :=
  match table.heap.popLink .expNode with
  | (node, heap) => (node, { table with heap := heap })

/-- `LRUHash::purge`. -/
def purge (fuel : ℕ) (table : LRUHash ν) : Option (LRUHash ν) :=
  table.sweep (fun i => i) fuel 0 table.timeslotSize

end LRUHash

/-! ## Fuel

A loop that ended with some fuel ends in the same way with more. -/

theorem Heap.search_mono {heap : Heap ν} {virt : Virtual ν κ} {hv : UInt64} {key : κ}
    {fuel more : ℕ} {cell found : Option (Cell ν)}
    (ended : heap.search virt hv key fuel cell = some found) (enough : fuel ≤ more) :
    heap.search virt hv key more cell = some found := by
  induction fuel generalizing more cell with
  | zero => cases ended
  | succ fuel ih =>
      cases more with
      | zero => cases enough
      | succ more =>
          cases cell with
          | none => exact ended
          | some cell =>
              rw [search] at ended ⊢
              split at ended
              · rw [if_pos ‹_›]
                exact ended
              · rw [if_neg ‹_›]
                exact ih ended (Nat.le_of_succ_le_succ enough)

namespace LRUHash

variable [DecidableEq ν]

theorem drain_mono {tp fuel more : ℕ} {table drained : LRUHash ν}
    (ended : table.drain tp fuel = some drained) (enough : fuel ≤ more) :
    table.drain tp more = some drained := by
  induction fuel generalizing more table with
  | zero => cases ended
  | succ fuel ih =>
      cases more with
      | zero => cases enough
      | succ more =>
          rw [drain] at ended ⊢
          split at ended
          · exact ended
          · exact ih ended (Nat.le_of_succ_le_succ enough)

theorem sweep_mono {slot : ℕ → ℕ} {fuel more i count : ℕ} {table swept : LRUHash ν}
    (ended : table.sweep slot fuel i count = some swept) (enough : fuel ≤ more) :
    table.sweep slot more i count = some swept := by
  induction count generalizing i table with
  | zero => exact ended
  | succ count ih =>
      obtain ⟨drained, first, rest⟩ := Option.bind_eq_some_iff.mp ended
      rw [sweep, drain_mono first enough, Option.bind_some]
      exact ih rest

end LRUHash

end Devourer
