import Devourer.Foundation.Wheel
import Devourer.LRUHash.History

/-! # The table as a timed store

To its clients a table is a store whose entries carry a time to live, counted in
ticks of progress. This purpose is stated here on histories alone: a node is
visible while the put that last took it has not run out and has not been purged
(`Visible`). As long as the tick counter does not wrap around, a put succeeds
exactly when its ticks fit the wheel and a lookup answers the most recently put
visible node (`Run.refines_timed_store`), whatever the number of timeslots and
buckets and however progress is divided among calls.
-/

namespace Devourer.LRUHash

variable {ν κ : Type}

/-- No call of the history puts the node. -/
def NoPut (node : ν) (history : History ν κ) : Prop :=
  ∀ entry ∈ history, ∀ tick, entry.1 ≠ .put tick node

def NoPurge (history : History ν κ) : Prop := ∀ entry ∈ history, entry.1 ≠ .purge

/-- The history ends with an accepted put of the node for `tick` ticks and then
the calls `newer`, none of which puts it again. -/
def LastPut (history : History ν κ) (node : ν) (tick : ℕ) (newer : History ν κ) : Prop :=
  (∃ older, history = newer ++ (.put tick node, .accepted true) :: older) ∧ NoPut node newer

/-- The last put of the node was taken, and since then there was no purge and no
more progress than it allows. -/
def Visible (history : History ν κ) (node : ν) : Prop :=
  ∃ tick newer, LastPut history node tick newer ∧ NoPurge newer ∧ progress newer ≤ tick

/-- Of the visible nodes with the property, the one put last. -/
def MostRecent (history : History ν κ) (property : ν → Prop) (node : ν) : Prop :=
  property node ∧ ∃ tick newer, LastPut history node tick newer ∧ NoPurge newer ∧
    progress newer ≤ tick ∧
      ∀ other, Visible history other → property other → other ≠ node → NoPut other newer

/-- Of two entries that split one list, either is the other or comes first. -/
theorem split_cases {α : Type} {first second : α} {front rest front' rest' : List α}
    (same : front ++ first :: rest = front' ++ second :: rest') :
    (front = front' ∧ first = second) ∨ first ∈ front' ∨ second ∈ front := by
  rcases List.append_eq_append_iff.mp same with ⟨middle, rfl, tail⟩ | ⟨middle, rfl, tail⟩
  · cases middle with
    | nil => exact .inl ⟨(List.append_nil front).symm, (List.cons.inj tail).1⟩
    | cons entry middle =>
        obtain ⟨rfl, -⟩ := List.cons.inj tail
        exact .inr (.inl (by simp))
  · cases middle with
    | nil => exact .inl ⟨List.append_nil front', (List.cons.inj tail).1.symm⟩
    | cons entry middle =>
        obtain ⟨rfl, -⟩ := List.cons.inj tail
        exact .inr (.inr (by simp))

/-- The last put of a node is determined by the history. -/
theorem LastPut.unique {history : History ν κ} {node : ν} {tick tick' : ℕ}
    {newer newer' : History ν κ} (here : LastPut history node tick newer)
    (there : LastPut history node tick' newer') : newer = newer' ∧ tick = tick' := by
  obtain ⟨⟨older, split⟩, quiet⟩ := here
  obtain ⟨⟨older', split'⟩, quiet'⟩ := there
  rcases split_cases (split.symm.trans split') with ⟨rfl, same⟩ | member | member
  · exact ⟨rfl, by simpa using same⟩
  · exact (quiet' _ member tick rfl).elim
  · exact (quiet _ member tick' rfl).elim

/-- Two nodes cannot both be the most recent one. -/
theorem MostRecent.unique {history : History ν κ} {property : ν → Prop} {first second : ν}
    (here : MostRecent history property first) (there : MostRecent history property second) :
    first = second := by
  obtain ⟨holds, tick, newer, put, unpurged, timely, latest⟩ := here
  obtain ⟨holds', tick', newer', put', unpurged', timely', latest'⟩ := there
  by_contra distinct
  have notHere := latest second ⟨tick', newer', put', unpurged', timely'⟩ holds'
    (Ne.symm distinct)
  have notThere := latest' first ⟨tick, newer, put, unpurged, timely⟩ holds distinct
  obtain ⟨⟨older, split⟩, -⟩ := put
  obtain ⟨⟨older', split'⟩, -⟩ := put'
  rcases split_cases (split.symm.trans split') with ⟨-, same⟩ | member | member
  · simp only [Prod.mk.injEq, Call.put.injEq, and_true] at same
    exact distinct same.2
  · exact notThere _ member tick rfl
  · exact notHere _ member tick' rfl

/-! ## The visible nodes in order -/

/-- The nodes that time and purges have left, the most recently put first, with
the ticks they have left. -/
def remaining : History ν κ → List (ν × ℕ)
  | (.put tick node, .accepted true) :: earlier => (node, tick) :: remaining earlier
  | (.prog tick, _) :: earlier => (remaining earlier).filterMap fun entry =>
      if tick ≤ entry.2 then some (entry.1, entry.2 - tick) else none
  | (.purge, _) :: _ => []
  | _ :: earlier => remaining earlier
  | [] => []

/-- A put that was taken and has neither run out nor been purged remains. -/
theorem mem_remaining_of_split {node : ν} {tick : ℕ} {newer older : History ν κ}
    (unpurged : NoPurge newer) (timely : progress newer ≤ tick) :
    (node, tick - progress newer) ∈
      remaining (newer ++ (.put tick node, .accepted true) :: older) := by
  induction newer with
  | nil => exact List.mem_cons_self
  | cons entry newer ih =>
      obtain ⟨call, answer⟩ := entry
      have notPurge : NoPurge newer := fun entry member =>
        unpurged entry (List.mem_cons_of_mem _ member)
      cases call with
      | put later other =>
          have kept := ih notPurge timely
          cases answer with
          | accepted taken =>
              cases taken with
              | true => exact List.mem_cons_of_mem _ kept
              | false => exact kept
          | pointer found => exact kept
          | done => exact kept
      | prog count =>
          have timely' : count + progress newer ≤ tick := timely
          have kept := ih notPurge (Nat.le_of_add_left_le timely')
          refine List.mem_filterMap.mpr ⟨_, kept, ?_⟩
          have lasts : count ≤ tick - progress newer := by omega
          have left : tick - progress newer - count = tick - (count + progress newer) := by omega
          simp only [lasts, ↓reduceIte, left, progress]
      | purge => exact (unpurged _ List.mem_cons_self rfl).elim
      | get hv key => exact ih notPurge timely
      | pop => exact ih notPurge timely
      | mutate virt => exact ih notPurge timely

theorem exists_mem_remaining {history : History ν κ} {node : ν} (visible : Visible history node) :
    ∃ left, (node, left) ∈ remaining history := by
  obtain ⟨tick, newer, ⟨⟨older, rfl⟩, -⟩, unpurged, timely⟩ := visible
  exact ⟨_, mem_remaining_of_split unpurged timely⟩

/-- The ticks left fix the timeslots: without wrap-around the abstract table files
the remaining nodes under the deadlines they had when put. -/
structure Timed (timeslots : ℕ) (history : History ν κ) (table : Table ν) : Prop where
  tick : table.currTick = progress history
  live : table.live = (remaining history).map
    fun entry => (entry.1, (progress history + entry.2) % timeslots)
  short : ∀ entry ∈ remaining history, entry.2 < timeslots

/-- The remaining nodes stand in the order of their last puts. -/
def Ordered (history : History ν κ) : Prop :=
  ∀ front node left back, remaining history = front ++ (node, left) :: back →
    ∃ tick newer, LastPut history node tick newer ∧ NoPurge newer ∧
      progress newer + left = tick ∧ ∀ other ∈ back.map Prod.fst, NoPut other newer

/-- A call that neither puts a node nor purges moves the last puts further back. -/
theorem LastPut.cons {history : History ν κ} {node : ν} {tick : ℕ} {newer : History ν κ}
    (put : LastPut history node tick newer) {entry : Call ν κ × Answer ν}
    (other : ∀ tick, entry.1 ≠ .put tick node) :
    LastPut (entry :: history) node tick (entry :: newer) := by
  obtain ⟨⟨older, rfl⟩, quiet⟩ := put
  refine ⟨⟨older, rfl⟩, fun later member => ?_⟩
  rcases List.mem_cons.mp member with rfl | member
  · exact other
  · exact quiet later member

theorem NoPut.cons {node : ν} {history : History ν κ} (quiet : NoPut node history)
    {entry : Call ν κ × Answer ν} (other : ∀ tick, entry.1 ≠ .put tick node) :
    NoPut node (entry :: history) := by
  intro later member
  rcases List.mem_cons.mp member with rfl | member
  · exact other
  · exact quiet later member

theorem NoPurge.cons {history : History ν κ} (unpurged : NoPurge history)
    {entry : Call ν κ × Answer ν} (other : entry.1 ≠ .purge) : NoPurge (entry :: history) := by
  intro later member
  rcases List.mem_cons.mp member with rfl | member
  · exact other
  · exact unpurged later member

/-- A call that puts none of the remaining nodes, does not purge and makes no
progress keeps their order. -/
theorem Ordered.cons {history : History ν κ} (ordered : Ordered history)
    {entry : Call ν κ × Answer ν} (same : remaining (entry :: history) = remaining history)
    (still : ∀ newer : History ν κ, progress (entry :: newer) = progress newer)
    (other : ∀ node ∈ (remaining history).map Prod.fst, ∀ tick, entry.1 ≠ .put tick node)
    (notPurge : entry.1 ≠ .purge) : Ordered (entry :: history) := by
  intro front node left back split
  rw [same] at split
  obtain ⟨tick, newer, put, unpurged, timely, latest⟩ := ordered front node left back split
  rw [split] at other
  refine ⟨tick, entry :: newer, put.cons (other node (by simp)), unpurged.cons notPurge,
    (still newer).symm ▸ timely, fun behind member => (latest behind member).cons ?_⟩
  exact other behind (by simp [List.mem_map.mp member])

/-- Progress takes nodes out of the order without moving the others. -/
theorem Ordered.prog {history : History ν κ} (ordered : Ordered history) (count : ℕ)
    (answer : Answer ν) : Ordered ((.prog count, answer) :: history) := by
  intro front node left back split
  obtain ⟨before, rest, whole, -, tail⟩ := List.filterMap_eq_append_iff.mp split
  obtain ⟨dropped, ⟨named, lasts⟩, after, rfl, -, kept, backIs⟩ :=
    List.filterMap_eq_cons_iff.mp tail
  have enough : count ≤ lasts := by
    by_contra short
    simp only [short, ↓reduceIte, reduceCtorEq] at kept
  simp only [enough, ↓reduceIte, Option.some.injEq, Prod.mk.injEq] at kept
  obtain ⟨rfl, rfl⟩ := kept
  rw [← List.append_assoc] at whole
  obtain ⟨tick, newer, put, unpurged, timely, latest⟩ := ordered _ _ _ _ whole
  refine ⟨tick, (.prog count, answer) :: newer, put.cons (by simp), unpurged.cons (by simp), ?_,
    fun behind member => (latest behind ?_).cons (by simp)⟩
  · simp only [progress]
    omega
  · obtain ⟨⟨named, left⟩, inside, rfl⟩ := List.mem_map.mp member
    rw [← backIs] at inside
    obtain ⟨source, inAfter, moved⟩ := List.mem_filterMap.mp inside
    split at moved
    · cases moved
      exact List.mem_map.mpr ⟨source, inAfter, rfl⟩
    · cases moved

/-- Accepting a put of a new node puts it in front. -/
theorem Ordered.put {history : History ν κ} (ordered : Ordered history) (tick : ℕ) {node : ν}
    (fresh : node ∉ (remaining history).map Prod.fst) :
    Ordered ((.put tick node, .accepted true) :: history) := by
  intro front other left back split
  cases front with
  | nil =>
      obtain ⟨same, rfl⟩ := List.cons.inj split
      cases same
      exact ⟨tick, [], ⟨⟨history, rfl⟩, List.forall_mem_nil _⟩, List.forall_mem_nil _,
        Nat.zero_add tick, fun _ _ => List.forall_mem_nil _⟩
  | cons first front =>
      have earlier : remaining history = front ++ (other, left) :: back := (List.cons.inj split).2
      obtain ⟨tick', newer, put, unpurged, timely, latest⟩ := ordered front other left back earlier
      rw [earlier] at fresh
      have off : ∀ behind ∈ other :: back.map Prod.fst, ∀ later,
          (Call.put tick node : Call ν κ) ≠ .put later behind := by
        rintro behind member later same
        obtain ⟨-, rfl⟩ := Call.put.inj same
        apply fresh
        rw [List.map_append, List.map_cons]
        exact List.mem_append_right _ member
      exact ⟨tick', (.put tick node, .accepted true) :: newer,
        put.cons (off other List.mem_cons_self), unpurged.cons (by simp), timely,
        fun behind member => (latest behind member).cons
          (off behind (List.mem_cons_of_mem _ member))⟩

namespace Timed

variable {timeslots : ℕ} {history : History ν κ} {table : Table ν}

theorem live_nodes (timed : Timed timeslots history table) :
    table.live.map Prod.fst = (remaining history).map Prod.fst := by
  rw [timed.live, List.map_map]
  rfl

/-- A call that neither puts, purges nor makes progress leaves the deadlines. -/
theorem cons (timed : Timed timeslots history table) {entry : Call ν κ × Answer ν}
    (same : remaining (entry :: history) = remaining history)
    (still : progress (entry :: history) = progress history) {after : Table ν}
    (live : after.live = table.live) (tick : after.currTick = table.currTick) :
    Timed timeslots (entry :: history) after := by
  refine ⟨?_, ?_, ?_⟩
  · rw [tick, timed.tick, still]
  · rw [live, timed.live, same, still]
  · rw [same]
    exact timed.short

/-- The sweep of `count` ticks drops exactly the nodes with fewer ticks left. -/
theorem prog (timed : Timed timeslots history table) (size : table.timeslotSize = timeslots)
    {count : ℕ} (bounded : progress history + count < 2 ^ 64) (answer : Answer ν) :
    Timed timeslots ((.prog count, answer) :: history) (table.prog count) := by
  have tick : sizeT (table.currTick + count) = count + progress history := by
    rw [timed.tick, sizeT_of_lt bounded, Nat.add_comm]
  have visits : ∀ left < timeslots, Table.Visits table.slotAt 0 count
      ((progress history + left) % timeslots) ↔ left < count := by
    intro left short
    have filed : (∃ j < count, (progress history + j) % timeslots =
        (progress history + left) % timeslots) ↔ left < count := Wheel.hit_iff short
    have at_ : ∀ j < count, table.slotAt j = (progress history + j) % timeslots := by
      intro j below
      rw [Table.slotAt, size, timed.tick, sizeT_of_lt (by omega)]
    rw [← filed]
    constructor
    · rintro ⟨j, -, below, named⟩
      rw [Nat.zero_add] at below
      exact ⟨j, below, at_ j below ▸ named⟩
    · rintro ⟨j, below, named⟩
      exact ⟨j, Nat.zero_le j, (Nat.zero_add count).symm ▸ below, (at_ j below).trans named⟩
  refine ⟨tick, ?_, ?_⟩
  · change (table.sweep table.slotAt 0 count).live = _
    rw [Table.sweep_live, timed.live]
    have short := timed.short
    simp only [remaining, progress]
    revert short
    induction remaining history with
    | nil => exact fun _ => rfl
    | cons entry rest ih =>
        intro short
        have rest := ih fun later member => short later (List.mem_cons_of_mem _ member)
        have here := visits entry.2 (short entry List.mem_cons_self)
        rw [List.map_cons, List.filter_cons, List.filterMap_cons]
        by_cases lasts : count ≤ entry.2
        · have left : count + progress history + (entry.2 - count) =
              progress history + entry.2 := by omega
          simp only [here, Nat.not_lt.mpr lasts, lasts, not_false_eq_true, decide_true,
            ↓reduceIte, List.map_cons, rest, left]
        · simp only [here, Nat.lt_of_not_le lasts, lasts, not_true_eq_false, decide_false,
            Bool.false_eq_true, ↓reduceIte, rest]
  · intro entry member
    obtain ⟨source, inside, moved⟩ := List.mem_filterMap.mp member
    have short := timed.short source inside
    split at moved
    · cases moved
      exact Nat.lt_of_le_of_lt (Nat.sub_le _ _) short
    · cases moved

end Timed

/-- What a history says about the abstract table while the tick counter has not
wrapped around. -/
def TimedOrdered (timeslots : ℕ) (history : History ν κ) (table : Table ν) : Prop :=
  progress history < 2 ^ 64 - timeslots → Timed timeslots history table ∧ Ordered history

theorem TimedOrdered.fresh (timeslots : ℕ) :
    TimedOrdered timeslots ([] : History ν κ) (Table.new timeslots) := fun _ =>
  ⟨⟨rfl, rfl, List.forall_mem_nil _⟩, fun front _ _ _ split => by cases front <;> cases split⟩

/-- **One call keeps the deadlines and the order.** -/
theorem TimedOrdered.step {timeslots : ℕ} (history : History ν κ) (virt : Virtual ν κ)
    (table : Table ν) (call : Call ν κ) (size : table.timeslotSize = timeslots)
    (held : ∀ node, Held history node ↔ node ∈ table.nodes) (legal : Legal history virt call)
    (earlier : TimedOrdered timeslots history table) :
    TimedOrdered timeslots ((call, tableAnswer virt table call) :: history)
      (tableAfter table call) := by
  intro bounded
  cases call with
  | put tick node =>
      obtain ⟨timed, ordered⟩ := earlier bounded
      have fresh : node ∉ table.nodes := fun member => legal ((held node).mpr member)
      have notLive : node ∉ (remaining history).map Prod.fst := fun member =>
        fresh (List.mem_append_left _ (timed.live_nodes ▸ member))
      by_cases short : tick < table.timeslotSize
      · have bound : progress history < 2 ^ 64 - timeslots := bounded
        simp only [tableAnswer, tableAfter, Table.put_of_lt short]
        refine ⟨⟨timed.tick, ?_, ?_⟩, ordered.put tick notLive⟩
        · have slot : table.slotFor tick = (progress history + tick) % timeslots := by
            rw [Table.slotFor, timed.tick, size, sizeT_of_lt (by omega), Nat.add_comm]
          rw [timed.live, slot]
          rfl
        · intro entry member
          rcases List.mem_cons.mp member with rfl | member
          · exact size ▸ short
          · exact timed.short entry member
      · simp only [tableAnswer, tableAfter, Table.put_of_le (Nat.not_lt.mp short)]
        refine ⟨timed.cons rfl rfl rfl rfl, ordered.cons rfl (fun _ => rfl) ?_ (by simp)⟩
        rintro other member later same
        obtain ⟨-, rfl⟩ := Call.put.inj same
        exact notLive member
  | prog count =>
      have total : count + progress history < 2 ^ 64 - timeslots := bounded
      obtain ⟨timed, ordered⟩ := earlier (by omega)
      exact ⟨timed.prog size (by omega) _, ordered.prog count _⟩
  | purge =>
      obtain ⟨timed, ordered⟩ := earlier bounded
      refine ⟨⟨(Table.sweep_currTick ..).trans timed.tick, ?_, List.forall_mem_nil _⟩,
        fun front _ _ _ split => by cases front <;> cases split⟩
      have short := timed.short
      apply Table.purge_live
      rw [timed.live, size]
      intro entry member
      obtain ⟨source, inside, rfl⟩ := List.mem_map.mp member
      exact Nat.mod_lt _ (Nat.zero_lt_of_lt (short source inside))
  | get hv key =>
      obtain ⟨timed, ordered⟩ := earlier bounded
      exact ⟨timed.cons rfl rfl rfl rfl, ordered.cons rfl (fun _ => rfl) (by simp) (by simp)⟩
  | pop =>
      obtain ⟨timed, ordered⟩ := earlier bounded
      refine ⟨timed.cons rfl rfl ?_ ?_, ordered.cons rfl (fun _ => rfl) (by simp) (by simp)⟩
      · simp only [tableAfter, Table.pop]
        split <;> rfl
      · simp only [tableAfter, Table.pop]
        split <;> rfl
  | mutate virt =>
      obtain ⟨timed, ordered⟩ := earlier bounded
      exact ⟨timed.cons rfl rfl rfl rfl, ordered.cons rfl (fun _ => rfl) (by simp) (by simp)⟩

/-- If no remaining node has a property, no visible node has it. -/
theorem not_visible_of_find_none {history : History ν κ} (property : ν → Prop)
    [DecidablePred property]
    (none : ((remaining history).find? fun entry => property entry.1).map Prod.fst = none)
    {node : ν} (visible : Visible history node) : ¬ property node := by
  obtain ⟨left, member⟩ := exists_mem_remaining visible
  have absent := List.find?_eq_none.mp (Option.map_eq_none_iff.mp none) _ member
  exact fun holds => absent (decide_eq_true holds)

/-- The first remaining node with a property is the most recently put visible
one. -/
theorem Ordered.find_iff {history : History ν κ} (ordered : Ordered history)
    (property : ν → Prop) [DecidablePred property] (node : ν) :
    ((remaining history).find? fun entry => property entry.1).map Prod.fst = some node ↔
      MostRecent history property node := by
  have found : ∀ other, ((remaining history).find? fun entry => property entry.1).map Prod.fst =
      some other → MostRecent history property other := by
    intro other first
    obtain ⟨⟨named, left⟩, chosen, rfl⟩ := Option.map_eq_some_iff.mp first
    obtain ⟨holds, front, back, split, before⟩ := List.find?_eq_some_iff_append.mp chosen
    obtain ⟨tick, newer, put, unpurged, timely, latest⟩ := ordered front named left back split
    refine ⟨of_decide_eq_true holds, tick, newer, put, unpurged, by omega,
      fun third visible also different => latest third ?_⟩
    obtain ⟨rest, member⟩ := exists_mem_remaining visible
    rw [split] at member
    rcases List.mem_append.mp member with earlier | later
    · have not := before _ earlier
      simp only [also, decide_true, Bool.not_true, Bool.false_eq_true] at not
    · rcases List.mem_cons.mp later with same | later
      · exact (different (congrArg Prod.fst same)).elim
      · exact List.mem_map_of_mem later
  refine ⟨found node, fun recent => ?_⟩
  cases answer : ((remaining history).find? fun entry => property entry.1).map Prod.fst with
  | some other => rw [(found other answer).unique recent]
  | none =>
      obtain ⟨holds, tick, newer, put, unpurged, timely, -⟩ := recent
      exact (not_visible_of_find_none property answer ⟨tick, newer, put, unpurged, timely⟩
        holds).elim

section Histories

variable [DecidableEq ν] {timeslots buckets : ℕ} {history : History ν κ} {world : World ν κ}

/-- Every history has an abstract table with its deadlines and its order. -/
theorem Run.timed (run : Run timeslots buckets history world) (positive : 0 < timeslots)
    (bounded : progress history < 2 ^ 64 - timeslots) :
    ∃ table, Tracks timeslots history world table ∧ Timed timeslots history table ∧
      Ordered history := by
  obtain ⟨table, tracks, timed⟩ := run.tracks positive (TimedOrdered.fresh timeslots)
    fun history virt table call _ size held legal earlier =>
      TimedOrdered.step history virt table call size held legal earlier
  exact ⟨table, tracks, (timed bounded).1, (timed bounded).2⟩

/-- **The table refines a timed store.** While total progress stays below
`2 ^ 64` less the number of timeslots, a legal put is taken exactly when its
ticks are fewer than the timeslots and otherwise changes nothing, and a lookup
answers the most recently put visible node with the hash value and the key, or
nothing when there is none. -/
theorem Run.refines_timed_store (run : Run timeslots buckets history world)
    (positive : 0 < timeslots) (bounded : progress history < 2 ^ 64 - timeslots) :
    (∀ fuel tick node, Legal history world.virt (.put tick node) →
      ∃ next, world.step fuel (.put tick node) =
          some (.accepted (decide (tick < timeslots)), next) ∧
        (¬ tick < timeslots → next = world)) ∧
      ∀ hv key, ∃ enough, ∀ fuel ≥ enough, ∃ answer : Option ν,
        world.step fuel (.get hv key) = some (.pointer (answer.map .node), world) ∧
          (∀ node, answer = some node ↔ MostRecent history (world.virt.Answers hv key) node) ∧
          (answer = none ↔
            ∀ node, Visible history node → ¬ world.virt.Answers hv key node) := by
  obtain ⟨table, tracks, timed, ordered⟩ := run.timed positive bounded
  have size : world.hash.timeslotSize = timeslots :=
    tracks.represents.timeslotSize.trans tracks.timeslotSize
  have found : ∀ hv key, table.get world.virt hv key = ((remaining history).find? fun entry =>
      world.virt.Answers hv key entry.1).map Prod.fst := by
    intro hv key
    rw [Table.get, timed.live, List.find?_map, Option.map_map]
    rfl
  refine ⟨fun fuel tick node legal => ?_, fun hv key => ⟨table.live.length + 1,
    fun fuel enough => ⟨table.get world.virt hv key, ?_, fun node => ?_, ?_⟩⟩⟩
  · by_cases short : tick < timeslots
    · refine ⟨{ world with hash := (world.hash.put world.virt tick node).2 }, ?_,
        fun long => (long short).elim⟩
      simp only [World.step, LRUHash.put, size, Nat.not_le.mpr short, ↓reduceIte, short,
        decide_true]
    · refine ⟨world, ?_, fun _ => rfl⟩
      simp only [World.step, LRUHash.put, size, Nat.not_lt.mp short, ↓reduceIte, short,
        decide_false]
  · rw [World.step, tracks.represents.get hv key tracks.buckets (Nat.lt_of_succ_le enough)]
    rfl
  · rw [found, ordered.find_iff]
  · rw [found]
    refine ⟨fun none node visible => not_visible_of_find_none _ none visible, fun absent => ?_⟩
    refine Option.eq_none_iff_forall_not_mem.mpr fun node answered => ?_
    obtain ⟨holds, tick, newer, put, unpurged, timely, -⟩ := (ordered.find_iff _ node).mp answered
    exact absent node ⟨tick, newer, put, unpurged, timely⟩ holds

theorem Run.refines_timed_store_sample : ∃ world, Run 2 1 sampleHistory world ∧
    (∃ next, world.step 0 (.put 2 9) = some (.accepted false, next) ∧ next = world) ∧
      ∃ enough, ∀ fuel ≥ enough, ∃ answer : Option ℕ,
        world.step fuel (.get 0 8) = some (.pointer (answer.map .node), world) ∧
          ∀ node, answer = some node ↔
            MostRecent sampleHistory (world.virt.Answers 0 8) node := by
  obtain ⟨world, run⟩ := Run.sample
  obtain ⟨puts, gets⟩ := run.refines_timed_store (by decide) (by decide)
  obtain ⟨next, refused, same⟩ := puts 0 2 9 (by simp [Legal, sampleHistory, Held])
  obtain ⟨enough, answers⟩ := gets 0 8
  refine ⟨world, run, ⟨next, refused, same (by decide)⟩, enough, fun fuel fueled => ?_⟩
  obtain ⟨answer, returned, recent, -⟩ := answers fuel fueled
  exact ⟨answer, returned, recent⟩

end Histories

end Devourer.LRUHash
