import Devourer.LRUHash.Refinement

/-! # Histories of a table

A client sees a table through its calls and their answers. `Run` collects the
call histories, newest first, that a freshly built table over pointers can
produce when the client keeps the one rule the class relies on: it puts only
nodes it does not have in the table (`Legal`). The client may change a node
whenever this leaves `hash()` and `match()` of the nodes it has put alone.

Every history is also one of the abstract table (`Run.represents`), which turns
statements about histories into statements about lists.
-/

namespace Devourer.LRUHash

variable {ν κ : Type}

/-- A call a client can make, or a change it makes to its nodes in between. -/
inductive Call (ν κ : Type) where
  | put (tick : ℕ) (node : ν)
  | get (hv : UInt64) (key : κ)
  | prog (tick : ℕ)
  | pop
  | purge
  | mutate (virt : Virtual ν κ)

/-- What a call returns. -/
inductive Answer (ν : Type) where
  | accepted (taken : Bool)
  | pointer (node : Option (Cell ν))
  | done

/-- A history: calls with their answers, newest first. -/
abbrev History (ν κ : Type) := List (Call ν κ × Answer ν)

/-- The client has the node in the table: `put` took it and `pop` has not
returned it since. -/
def Held : History ν κ → ν → Prop
  | (.put _ node, .accepted true) :: earlier, other => other = node ∨ Held earlier other
  | (.pop, .pointer (some (.node node))) :: earlier, other => other ≠ node ∧ Held earlier other
  | _ :: earlier, other => Held earlier other
  | [], _ => False

/-- The rule a client keeps. -/
def Legal (history : History ν κ) (virt : Virtual ν κ) : Call ν κ → Prop
  | .put _ node => ¬ Held history node
  | .mutate new => ∀ node, Held history node →
      new.hash node = virt.hash node ∧ new.matches? node = virt.matches? node
  | _ => True

/-- A table together with the virtual functions of the nodes. -/
structure World (ν κ : Type) where
  hash : LRUHash ν
  virt : Virtual ν κ

variable [DecidableEq ν]

/-- The effect of one call, given fuel for the loops it runs. -/
def World.step (fuel : ℕ) (world : World ν κ) : Call ν κ → Option (Answer ν × World ν κ)
  | .put tick node =>
      match world.hash.put world.virt tick node with
      | (taken, hash) => some (.accepted taken, { world with hash := hash })
  | .get hv key => (world.hash.get world.virt fuel hv key).map fun node => (.pointer node, world)
  | .prog tick => (world.hash.prog fuel tick).map fun hash => (.done, { world with hash := hash })
  | .pop =>
      match world.hash.pop with
      | (node, hash) => some (.pointer node, { world with hash := hash })
  | .purge => (world.hash.purge fuel).map fun hash => (.done, { world with hash := hash })
  | .mutate virt => some (.done, { world with virt := virt })

/-- The histories of a table built with the given sizes, and where they lead. -/
inductive Run (timeslots buckets : ℕ) : History ν κ → World ν κ → Prop where
  | fresh (virt : Virtual ν κ) : Run timeslots buckets [] ⟨.new timeslots buckets, virt⟩
  | step {history : History ν κ} {world next : World ν κ} {call : Call ν κ} {answer : Answer ν}
      {fuel : ℕ} : Run timeslots buckets history world → Legal history world.virt call →
      world.step fuel call = some (answer, next) →
      Run timeslots buckets ((call, answer) :: history) next

/-- Total progress made in a history. -/
def progress : History ν κ → ℕ
  | (.prog tick, _) :: earlier => tick + progress earlier
  | _ :: earlier => progress earlier
  | [] => 0

/-! ## The abstract table along a history -/

/-- The abstract table after one call. -/
def tableAfter (table : Table ν) : Call ν κ → Table ν
  | .put tick node => (table.put tick node).2
  | .prog tick => table.prog tick
  | .pop => table.pop.2
  | .purge => table.purge
  | .get _ _ => table
  | .mutate _ => table

/-- The answer of the abstract table. -/
def tableAnswer (virt : Virtual ν κ) (table : Table ν) : Call ν κ → Answer ν
  | .put tick node => .accepted (table.put tick node).1
  | .get hv key => .pointer ((table.get virt hv key).map .node)
  | .pop => .pointer (table.pop.1.map .node)
  | _ => .done

/-- The virtual functions after one call. -/
def virtAfter (virt : Virtual ν κ) : Call ν κ → Virtual ν κ
  | .mutate new => new
  | _ => virt

/-- Only the client changes the virtual functions. -/
theorem World.step_virt {fuel : ℕ} {world next : World ν κ} {call : Call ν κ} {answer : Answer ν}
    (stepped : world.step fuel call = some (answer, next)) :
    next.virt = virtAfter world.virt call := by
  cases call with
  | put tick node =>
      cases stepped
      rfl
  | pop =>
      cases stepped
      rfl
  | mutate virt =>
      cases stepped
      rfl
  | get hv key =>
      obtain ⟨node, -, answered⟩ := Option.map_eq_some_iff.mp stepped
      cases answered
      rfl
  | prog tick =>
      obtain ⟨hash, -, answered⟩ := Option.map_eq_some_iff.mp stepped
      cases answered
      rfl
  | purge =>
      obtain ⟨hash, -, answered⟩ := Option.map_eq_some_iff.mp stepped
      cases answered
      rfl

/-- A call that returned with some fuel returns the same with more. -/
theorem World.step_mono {fuel more : ℕ} {world next : World ν κ} {call : Call ν κ}
    {answer : Answer ν} (stepped : world.step fuel call = some (answer, next))
    (enough : fuel ≤ more) : world.step more call = some (answer, next) := by
  cases call with
  | put tick node => exact stepped
  | pop => exact stepped
  | mutate virt => exact stepped
  | get hv key =>
      obtain ⟨node, found, answered⟩ := Option.map_eq_some_iff.mp stepped
      exact Option.map_eq_some_iff.mpr ⟨node, Heap.search_mono found enough, answered⟩
  | prog tick =>
      obtain ⟨hash, finished, answered⟩ := Option.map_eq_some_iff.mp stepped
      obtain ⟨swept, ended, rfl⟩ := Option.map_eq_some_iff.mp finished
      refine Option.map_eq_some_iff.mpr ⟨_, ?_, answered⟩
      exact Option.map_eq_some_iff.mpr ⟨swept, sweep_mono ended enough, rfl⟩
  | purge =>
      obtain ⟨hash, finished, answered⟩ := Option.map_eq_some_iff.mp stepped
      exact Option.map_eq_some_iff.mpr ⟨hash, sweep_mono finished enough, answered⟩

/-- What holds between a history, the table it leads to over pointers and the
abstract table. -/
structure Tracks (timeslots : ℕ) (history : History ν κ) (world : World ν κ)
    (table : Table ν) : Prop where
  represents : Represents world.virt world.hash table
  timeslotSize : table.timeslotSize = timeslots
  buckets : 0 < world.hash.bucketSize
  held : ∀ node, Held history node ↔ node ∈ table.nodes

variable {timeslots buckets : ℕ} {history : History ν κ} {world : World ν κ} {table : Table ν}

omit [DecidableEq ν] in
theorem Tracks.fresh (timeslots buckets : ℕ) (virt : Virtual ν κ) :
    Tracks timeslots [] ⟨.new timeslots buckets, virt⟩ (Table.new timeslots) := by
  refine ⟨Represents.new virt timeslots buckets, rfl, ?_, fun node => ?_⟩
  · simp only [LRUHash.new, defaultBucketSize]
    split <;> omega
  · simp [Held, Table.nodes, Table.new]

/-- **One call.** With a step of fuel for each live node and one more, a legal
call returns, answers as the abstract table does, and keeps the relation. -/
theorem Tracks.step (tracks : Tracks timeslots history world table) (positive : 0 < timeslots)
    {call : Call ν κ} (legal : Legal history world.virt call) {fuel : ℕ}
    (enough : table.live.length < fuel) :
    ∃ next, world.step fuel call = some (tableAnswer world.virt table call, next) ∧
      Tracks timeslots ((call, tableAnswer world.virt table call) :: history) next
        (tableAfter table call) := by
  have slots : 0 < world.hash.timeslotSize := by
    rw [tracks.represents.timeslotSize, tracks.timeslotSize]
    exact positive
  cases call with
  | put tick node =>
      have fresh : node ∉ table.nodes := fun member => legal ((tracks.held node).mpr member)
      obtain ⟨taken, represents⟩ := tracks.represents.put tracks.buckets fresh tick
      refine ⟨{ world with hash := (world.hash.put world.virt tick node).2 }, ?_, represents,
        ?_, ?_, fun other => ?_⟩
      · simp only [World.step, tableAnswer, taken]
      · by_cases short : tick < table.timeslotSize
        · rw [tableAfter, Table.put_of_lt short]
          exact tracks.timeslotSize
        · rw [tableAfter, Table.put_of_le (Nat.not_lt.mp short)]
          exact tracks.timeslotSize
      · simp only [LRUHash.put]
        split <;> exact tracks.buckets
      · by_cases short : tick < table.timeslotSize
        · simp only [tableAnswer, tableAfter, Table.put_of_lt short, Held, tracks.held other,
            Table.nodes, List.map_cons, List.cons_append, List.mem_cons]
        · simp only [tableAnswer, tableAfter, Table.put_of_le (Nat.not_lt.mp short), Held,
            tracks.held other]
  | get hv key =>
      refine ⟨world, ?_, tracks.represents, tracks.timeslotSize, tracks.buckets, tracks.held⟩
      rw [World.step, tracks.represents.get hv key tracks.buckets enough]
      rfl
  | prog tick =>
      obtain ⟨hash, finished, represents, size⟩ :=
        tracks.represents.prog tracks.buckets slots tick enough
      refine ⟨{ world with hash := hash }, ?_, represents, ?_, size ▸ tracks.buckets,
        fun other => ?_⟩
      · rw [World.step, finished]
        rfl
      · exact (Table.sweep_timeslotSize _ _ _ _).trans tracks.timeslotSize
      · exact (tracks.held other).trans (Table.sweep_nodes _ _ _ _).mem_iff.symm
  | pop =>
      obtain ⟨answered, represents⟩ := tracks.represents.pop
      refine ⟨{ world with hash := world.hash.pop.2 }, ?_, represents, ?_, tracks.buckets,
        fun other => ?_⟩
      · simp only [World.step, tableAnswer, answered]
      · rw [tableAfter, ← tracks.timeslotSize]
        simp only [Table.pop]
        split <;> rfl
      · obtain ⟨size, tick, live, exp⟩ := table
        cases exp with
        | nil => exact tracks.held other
        | cons node rest =>
            have wf := tracks.represents.wf.nodup
            have off := (List.nodup_cons.mp (List.nodup_middle.mp wf)).1
            have before := tracks.held other
            simp only [Table.nodes, List.mem_append, List.mem_cons] at off before
            simp only [tableAnswer, tableAfter, Table.pop, Option.map_some, Held, Table.nodes,
              List.mem_append, before]
            grind
  | purge =>
      obtain ⟨hash, finished, represents, size⟩ :=
        tracks.represents.purge tracks.buckets enough
      refine ⟨{ world with hash := hash }, ?_, represents, ?_, size ▸ tracks.buckets,
        fun other => ?_⟩
      · rw [World.step, finished]
        rfl
      · exact (Table.sweep_timeslotSize _ _ _ _).trans tracks.timeslotSize
      · exact (tracks.held other).trans (Table.sweep_nodes _ _ _ _).mem_iff.symm
  | mutate virt =>
      refine ⟨{ world with virt := virt }, rfl, ?_, tracks.timeslotSize, tracks.buckets,
        tracks.held⟩
      refine tracks.represents.congr fun node member => ?_
      exact (legal node ((tracks.held node).mpr (List.mem_append_left _ member))).1

/-- Every legal call extends a history, with the answer of the abstract table. -/
theorem Run.call (run : Run timeslots buckets history world)
    (tracks : Tracks timeslots history world table) (positive : 0 < timeslots)
    (call : Call ν κ) (legal : Legal history world.virt call) :
    ∃ next, Run timeslots buckets ((call, tableAnswer world.virt table call) :: history) next ∧
      Tracks timeslots ((call, tableAnswer world.virt table call) :: history) next
        (tableAfter table call) := by
  obtain ⟨next, stepped, tracked⟩ :=
    tracks.step positive legal (Nat.lt_succ_self table.live.length)
  exact ⟨next, run.step legal stepped, tracked⟩

/-- A node is put for one tick and another after that tick; one tick later the
first is popped while the second is still live. -/
def sampleHistory : History ℕ ℕ :=
  [(.pop, .pointer (some (.node 7))), (.prog 1, .done), (.put 1 8, .accepted true),
    (.prog 1, .done), (.put 1 7, .accepted true)]

theorem Run.sample : ∃ world, Run 2 1 sampleHistory world := by
  let virt : Virtual ℕ ℕ := ⟨fun _ => 0, fun node key => node == key⟩
  have positive : 0 < 2 := by decide
  obtain ⟨_, run, tracks⟩ :=
    (Run.fresh virt).call (Tracks.fresh 2 1 virt) positive (.put 1 7) nofun
  obtain ⟨_, run, tracks⟩ := run.call tracks positive (.prog 1) trivial
  obtain ⟨_, run, tracks⟩ := run.call tracks positive (.put 1 8)
    (by simp [Legal, Held, tableAnswer, Table.put, Table.new])
  obtain ⟨_, run, tracks⟩ := run.call tracks positive (.prog 1) trivial
  obtain ⟨world, run, -⟩ := run.call tracks positive .pop trivial
  exact ⟨world, run⟩

/-- **Induction over histories.** What holds of the empty table and is kept by
every legal call of the abstract table holds of every history. -/
theorem Run.tracks {motive : History ν κ → Table ν → Prop} (positive : 0 < timeslots)
    (fresh : motive [] (Table.new timeslots))
    (kept : ∀ history virt table call, table.WF → table.timeslotSize = timeslots →
      (∀ node, Held history node ↔ node ∈ table.nodes) → Legal history virt call →
      motive history table →
      motive ((call, tableAnswer virt table call) :: history) (tableAfter table call))
    (run : Run timeslots buckets history world) :
    ∃ table, Tracks timeslots history world table ∧ motive history table := by
  induction run with
  | fresh virt =>
      exact ⟨Table.new timeslots, Tracks.fresh timeslots buckets virt, fresh⟩
  | @step history world next call answer fuel _ legal stepped ih =>
      obtain ⟨table, tracks, motived⟩ := ih
      obtain ⟨after, returned, tracked⟩ :=
        tracks.step positive legal (Nat.lt_of_lt_of_le (Nat.lt_succ_self table.live.length)
          (Nat.le_max_right fuel (table.live.length + 1)))
      have same := World.step_mono stepped (Nat.le_max_left fuel (table.live.length + 1))
      rw [returned] at same
      obtain ⟨rfl, rfl⟩ := Prod.mk.inj (Option.some.inj same)
      exact ⟨tableAfter table call, tracked, kept history world.virt table call
        tracks.represents.wf tracks.timeslotSize tracks.held legal motived⟩

end Devourer.LRUHash
