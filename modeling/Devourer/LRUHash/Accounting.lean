import Devourer.LRUHash.TimedStore

/-! # The table neither loses nor duplicates nodes

A client that frees what `pop` returns relies on getting back every node it put,
once for each put, and no node before its time. On histories this is a balance
between puts taken and nodes returned (`Accounted`) together with a description
of the expired list: it holds exactly the nodes that are due (`Due`), whether
their ticks ran out or a purge cut them short.
-/

namespace Devourer.LRUHash

variable {ν κ : Type}

/-- No call of the history returns the node from `pop`. -/
def NoPop (node : ν) (history : History ν κ) : Prop :=
  ∀ entry ∈ history, entry ≠ (.pop, .pointer (some (.node node)))

/-- The last put of the node was taken, the node was not popped since, and it has
been purged or its ticks have run out. -/
def Due (history : History ν κ) (node : ν) : Prop :=
  ∃ tick newer, LastPut history node tick newer ∧ NoPop node newer ∧
    (¬ NoPurge newer ∨ tick + 1 ≤ progress newer)

theorem NoPop.cons {node : ν} {history : History ν κ} (quiet : NoPop node history)
    {entry : Call ν κ × Answer ν} (other : entry ≠ (.pop, .pointer (some (.node node)))) :
    NoPop node (entry :: history) := by
  intro later member
  rcases List.mem_cons.mp member with rfl | member
  · exact other
  · exact quiet later member

/-- A node put and not popped since is held. -/
theorem held_of_lastPut {history : History ν κ} {node : ν} {tick : ℕ} {newer : History ν κ}
    (put : LastPut history node tick newer) (quiet : NoPop node newer) : Held history node := by
  obtain ⟨⟨older, rfl⟩, -⟩ := put
  induction newer with
  | nil => exact .inl rfl
  | cons entry newer ih =>
      have kept := ih fun later member => quiet later (List.mem_cons_of_mem _ member)
      rw [List.cons_append, Held.eq_def]
      split
      · rename_i same
        obtain ⟨rfl, rfl⟩ := List.cons.inj same
        exact .inr kept
      · rename_i other earlier same
        obtain ⟨rfl, rfl⟩ := List.cons.inj same
        refine ⟨?_, kept⟩
        rintro rfl
        exact quiet _ List.mem_cons_self rfl
      · rename_i same
        obtain ⟨-, rfl⟩ := List.cons.inj same
        exact kept
      · rename_i same
        cases same

section Counting

variable [DecidableEq ν]

/-- A put of the node was taken. -/
def takes (node : ν) : Call ν κ × Answer ν → Bool
  | (.put _ other, .accepted true) => other = node
  | _ => false

/-- `pop` returned the node. -/
def returns (node : ν) : Call ν κ × Answer ν → Bool
  | (.pop, .pointer (some (.node other))) => other = node
  | _ => false

/-- How often a put of the node was taken. -/
def accepted (node : ν) (history : History ν κ) : ℕ := history.countP (takes node)

/-- How often `pop` returned the node. -/
def popped (node : ν) (history : History ν κ) : ℕ := history.countP (returns node)

/-- The nodes in the table account for the puts not yet answered by a pop, and
each of them was put and not popped since. -/
structure Accounted (history : History ν κ) (table : Table ν) : Prop where
  balance : ∀ node, table.nodes.count node + popped node history = accepted node history
  lasting : ∀ node ∈ table.nodes,
    ∃ tick newer, LastPut history node tick newer ∧ NoPop node newer

theorem Accounted.fresh (timeslots : ℕ) :
    Accounted ([] : History ν κ) (Table.new timeslots) :=
  ⟨fun _ => rfl, List.forall_mem_nil _⟩

/-- A call that moves no node in or out of the table keeps the account. -/
theorem Accounted.cons {history : History ν κ} {table after : Table ν}
    (accounted : Accounted history table) {entry : Call ν κ × Answer ν}
    (same : after.nodes.Perm table.nodes)
    (notReturned : ∀ node, returns node entry = false) (notTaken : ∀ node, takes node entry = false)
    (otherPut : ∀ node ∈ table.nodes, ∀ tick, entry.1 ≠ .put tick node)
    (otherPop : ∀ node ∈ table.nodes, entry ≠ (.pop, .pointer (some (.node node)))) :
    Accounted (entry :: history) after := by
  refine ⟨fun node => ?_, fun node member => ?_⟩
  · rw [same.count_eq, popped, accepted, List.countP_cons_of_neg (by simp [notReturned]),
      List.countP_cons_of_neg (by simp [notTaken])]
    exact accounted.balance node
  · have inside := same.mem_iff.mp member
    obtain ⟨tick, newer, put, quiet⟩ := accounted.lasting node inside
    exact ⟨tick, entry :: newer, put.cons (otherPut node inside),
      quiet.cons (otherPop node inside)⟩

/-- A put that is taken moves its node in. -/
theorem Accounted.put {history : History ν κ} {table : Table ν}
    (accounted : Accounted history table) {node : ν} (fresh : node ∉ table.nodes) (tick slot : ℕ) :
    Accounted ((.put tick node, .accepted true) :: history)
      { table with live := (node, slot) :: table.live } := by
  constructor
  · intro other
    have before := accounted.balance other
    simp only [Table.nodes, popped, accepted] at before ⊢
    rw [List.map_cons, List.cons_append, List.count_cons, List.countP_cons, List.countP_cons]
    simp only [returns, takes, beq_iff_eq, decide_eq_true_eq, Bool.false_eq_true, ↓reduceIte]
    omega
  · intro other member
    rcases List.mem_cons.mp member with rfl | member
    · exact ⟨tick, [], ⟨⟨history, rfl⟩, List.forall_mem_nil _⟩, List.forall_mem_nil _⟩
    · obtain ⟨earlier, newer, put, quiet⟩ := accounted.lasting other member
      refine ⟨earlier, _, put.cons fun later same => ?_, quiet.cons (by simp)⟩
      obtain ⟨-, rfl⟩ := Call.put.inj same
      exact fresh member

/-- A pop moves the node out that it returns. -/
theorem Accounted.pop {history : History ν κ} {table : Table ν}
    (accounted : Accounted history table) (wf : table.WF) {node : ν} {rest : List ν}
    (exp : table.exp = node :: rest) :
    Accounted ((.pop, .pointer (some (.node node))) :: history) { table with exp := rest } := by
  have nodes : table.nodes.Perm (node :: (table.live.map Prod.fst ++ rest)) := by
    rw [Table.nodes, exp]
    exact List.perm_middle
  have off := (List.nodup_cons.mp (nodes.nodup_iff.mp wf.nodup)).1
  constructor
  · intro other
    have before := accounted.balance other
    rw [nodes.count_eq, List.count_cons] at before
    simp only [Table.nodes, popped, accepted] at before ⊢
    rw [List.countP_cons, List.countP_cons]
    simp only [returns, takes, beq_iff_eq, decide_eq_true_eq, Bool.false_eq_true,
      ↓reduceIte] at before ⊢
    omega
  · intro other member
    have inside : other ∈ table.nodes := nodes.mem_iff.mpr (List.mem_cons_of_mem _ member)
    obtain ⟨earlier, newer, put, quiet⟩ := accounted.lasting other inside
    refine ⟨earlier, _, put.cons (by simp), quiet.cons ?_⟩
    simp only [ne_eq, Prod.mk.injEq, true_and, Answer.pointer.injEq, Option.some.injEq,
      Cell.node.injEq]
    rintro rfl
    exact off member

/-- **One call keeps the account.** -/
theorem Accounted.step (history : History ν κ) (virt : Virtual ν κ) (table : Table ν)
    (call : Call ν κ) (wf : table.WF) (held : ∀ node, Held history node ↔ node ∈ table.nodes)
    (legal : Legal history virt call) (accounted : Accounted history table) :
    Accounted ((call, tableAnswer virt table call) :: history) (tableAfter table call) := by
  cases call with
  | put tick node =>
      have fresh : node ∉ table.nodes := fun member => legal ((held node).mpr member)
      by_cases short : tick < table.timeslotSize
      · simp only [tableAnswer, tableAfter, Table.put_of_lt short]
        exact accounted.put fresh tick _
      · simp only [tableAnswer, tableAfter, Table.put_of_le (Nat.not_lt.mp short)]
        refine accounted.cons (List.Perm.refl _) (fun _ => rfl) (fun _ => rfl) ?_ (by simp)
        intro other member later same
        obtain ⟨-, rfl⟩ := Call.put.inj same
        exact fresh member
  | get hv key =>
      exact accounted.cons (List.Perm.refl _) (fun _ => rfl) (fun _ => rfl) (by simp) (by simp)
  | prog count =>
      exact accounted.cons (Table.sweep_nodes ..) (fun _ => rfl) (fun _ => rfl) (by simp) (by simp)
  | purge =>
      exact accounted.cons (Table.sweep_nodes ..) (fun _ => rfl) (fun _ => rfl) (by simp) (by simp)
  | mutate virt =>
      exact accounted.cons (List.Perm.refl _) (fun _ => rfl) (fun _ => rfl) (by simp) (by simp)
  | pop =>
      cases exp : table.exp with
      | nil =>
          have popped : table.pop = (none, table) := by rw [Table.pop, exp]
          simp only [tableAnswer, tableAfter, popped]
          exact accounted.cons (List.Perm.refl _) (fun _ => rfl) (fun _ => rfl) (by simp) (by simp)
      | cons node rest =>
          have popped : table.pop = (some node, { table with exp := rest }) := by
            rw [Table.pop, exp]
          simp only [tableAnswer, tableAfter, popped, Option.map_some]
          exact accounted.pop wf exp

/-- **The expired list holds exactly the nodes that are due.** -/
theorem mem_exp_iff_due {timeslots : ℕ} {history : History ν κ} {table : Table ν} (wf : table.WF)
    (held : ∀ node, Held history node ↔ node ∈ table.nodes)
    (timed : Timed timeslots history table) (ordered : Ordered history)
    (accounted : Accounted history table) (node : ν) :
    node ∈ table.exp ↔ Due history node := by
  constructor
  · intro expired
    obtain ⟨tick, newer, put, quiet⟩ := accounted.lasting node (List.mem_append_right _ expired)
    refine ⟨tick, newer, put, quiet, ?_⟩
    by_contra early
    rw [not_or, not_not, Nat.not_le] at early
    obtain ⟨left, member⟩ := exists_mem_remaining
      ⟨tick, newer, put, early.1, Nat.le_of_lt_succ early.2⟩
    refine wf.not_mem_exp ?_ expired
    rw [timed.live_nodes]
    exact List.mem_map_of_mem member
  · rintro ⟨tick, newer, put, quiet, overdue⟩
    rcases List.mem_append.mp ((held node).mp (held_of_lastPut put quiet)) with live | expired
    · rw [timed.live_nodes] at live
      obtain ⟨⟨named, left⟩, member, rfl⟩ := List.mem_map.mp live
      obtain ⟨front, back, split⟩ := List.append_of_mem member
      obtain ⟨tick', newer', put', unpurged, timely, -⟩ := ordered front named left back split
      obtain ⟨rfl, rfl⟩ := put.unique put'
      rcases overdue with purged | late
      · exact (purged unpurged).elim
      · omega
    · exact expired

/-- What the last calls of a history leave behind: nothing is expired once `pop`
answers null, and nothing is live when only pops follow a purge. -/
structure Emptied (history : History ν κ) (table : Table ν) : Prop where
  expired : ∀ earlier, history = (.pop, .pointer none) :: earlier → table.exp = []
  live : ∀ pops answer older, history = pops ++ (.purge, answer) :: older →
    (∀ entry ∈ pops, entry.1 = .pop) → table.live = []

omit [DecidableEq ν] in
theorem Emptied.fresh (timeslots : ℕ) : Emptied ([] : History ν κ) (Table.new timeslots) where
  expired _ _ := rfl
  live _ _ _ _ _ := rfl

omit [DecidableEq ν] in
theorem Emptied.step (history : History ν κ) (virt : Virtual ν κ) (table : Table ν)
    (call : Call ν κ) (wf : table.WF) (emptied : Emptied history table) :
    Emptied ((call, tableAnswer virt table call) :: history) (tableAfter table call) := by
  constructor
  · intro earlier same
    obtain ⟨last, -⟩ := List.cons.inj same
    obtain ⟨rfl, answered⟩ := Prod.mk.inj last
    obtain ⟨size, tick, live, exp⟩ := table
    cases exp with
    | nil => rfl
    | cons node rest => simp [tableAnswer, Table.pop] at answered
  · intro pops answer older same onlyPops
    cases pops with
    | nil =>
        obtain ⟨last, -⟩ := List.cons.inj same
        obtain ⟨rfl, -⟩ := Prod.mk.inj last
        change (table.sweep (fun i => i) 0 table.timeslotSize).live = []
        rw [Table.sweep_live]
        refine List.filter_eq_nil_iff.mpr fun entry member kept => ?_
        refine of_decide_eq_true kept ⟨_, Nat.zero_le _, ?_, rfl⟩
        rw [Nat.zero_add]
        exact wf.inside entry member
    | cons entry pops =>
        have tail : history = pops ++ (.purge, answer) :: older := (List.cons.inj same).2
        obtain ⟨rfl, -⟩ := List.cons.inj same
        have isPop : call = .pop := onlyPops _ List.mem_cons_self
        subst isPop
        have before := emptied.live pops answer older tail fun later member =>
          onlyPops later (List.mem_cons_of_mem _ member)
        rw [tableAfter, Table.pop]
        split <;> exact before

end Counting

section Histories

variable [DecidableEq ν] {timeslots buckets : ℕ} {history : History ν κ} {world : World ν κ}

/-- Every history comes from one of its final parts. -/
theorem Run.suffix {newer older : History ν κ}
    (run : Run timeslots buckets (newer ++ older) world) :
    ∃ before, Run timeslots buckets older before := by
  induction newer generalizing world with
  | nil => exact ⟨world, run⟩
  | cons entry newer ih =>
      cases run with
      | step earlier _ _ => exact ih earlier

/-- The account of a history, its expired list and what its last calls left. -/
theorem Run.accounted (run : Run timeslots buckets history world) (positive : 0 < timeslots)
    (bounded : progress history < 2 ^ 64 - timeslots) :
    ∃ table, Tracks timeslots history world table ∧ Accounted history table ∧
      Emptied history table ∧ ∀ node, node ∈ table.exp ↔ Due history node := by
  obtain ⟨table, tracks, accounted, emptied, timed⟩ := run.tracks positive
    (motive := fun history table => Accounted history table ∧ Emptied history table ∧
      TimedOrdered timeslots history table)
    ⟨Accounted.fresh timeslots, Emptied.fresh timeslots, TimedOrdered.fresh timeslots⟩
    fun history virt table call wf size held legal earlier =>
      ⟨Accounted.step history virt table call wf held legal earlier.1,
        Emptied.step history virt table call wf earlier.2.1,
        TimedOrdered.step history virt table call size held legal earlier.2.2⟩
  obtain ⟨timed, ordered⟩ := timed bounded
  exact ⟨table, tracks, accounted, emptied, mem_exp_iff_due tracks.represents.wf tracks.held timed
    ordered accounted⟩

/-- Popping until null is possible after every history. -/
theorem Run.drains (run : Run timeslots buckets history world) (positive : 0 < timeslots) :
    ∃ pops empty, (∀ entry ∈ pops, entry.1 = .pop) ∧
      Run timeslots buckets ((.pop, .pointer none) :: (pops ++ history)) empty := by
  obtain ⟨table, tracks, -⟩ := run.tracks positive (motive := fun _ _ => True) trivial
    fun _ _ _ _ _ _ _ _ _ => trivial
  obtain ⟨exp, same⟩ : ∃ exp, table.exp = exp := ⟨_, rfl⟩
  induction exp generalizing history world table with
  | nil =>
      obtain ⟨next, popping, -⟩ := run.call tracks positive .pop trivial
      simp only [tableAnswer, Table.pop, same, Option.map_none] at popping
      exact ⟨[], next, List.forall_mem_nil _, popping⟩
  | cons node rest ih =>
      obtain ⟨next, popping, tracked⟩ := run.call tracks positive .pop trivial
      obtain ⟨pops, empty, onlyPops, drained⟩ :=
        ih popping _ tracked (by simp only [tableAfter, Table.pop, same])
      refine ⟨pops ++ [(.pop, tableAnswer world.virt table .pop)], empty, fun entry member => ?_,
        ?_⟩
      · rcases List.mem_append.mp member with member | member
        · exact onlyPops entry member
        · rw [List.mem_singleton.mp member]
      · rwa [List.append_assoc]

omit [DecidableEq ν] in
theorem progress_append (newer older : History ν κ) :
    progress (newer ++ older) = progress newer + progress older := by
  induction newer with
  | nil => exact (Nat.zero_add _).symm
  | cons entry newer ih =>
      obtain ⟨call, answer⟩ := entry
      cases call <;> simp only [List.cons_append, progress, ih, Nat.add_assoc]

omit [DecidableEq ν] in
theorem progress_pops {pops : History ν κ} (onlyPops : ∀ entry ∈ pops, entry.1 = .pop) :
    progress pops = 0 := by
  induction pops with
  | nil => rfl
  | cons entry pops ih =>
      obtain ⟨call, answer⟩ := entry
      obtain rfl : call = .pop := onlyPops _ List.mem_cons_self
      exact ih fun later member => onlyPops later (List.mem_cons_of_mem _ member)

theorem accepted_pops {pops : History ν κ} (onlyPops : ∀ entry ∈ pops, entry.1 = .pop)
    (node : ν) : accepted node pops = 0 := by
  refine List.countP_eq_zero.mpr fun entry member taken => ?_
  obtain ⟨call, answer⟩ := entry
  obtain rfl : call = .pop := onlyPops _ member
  cases taken

omit [DecidableEq ν] in
/-- A node due stays due while other nodes are popped. -/
theorem Due.pops {node : ν} (due : Due history node) {pops : History ν κ}
    (onlyPops : ∀ entry ∈ pops, entry.1 = .pop) (quiet : NoPop node pops) :
    Due (pops ++ history) node := by
  induction pops with
  | nil => exact due
  | cons entry pops ih =>
      obtain ⟨tick, newer, put, notPopped, overdue⟩ :=
        ih (fun later member => onlyPops later (List.mem_cons_of_mem _ member))
          (fun later member => quiet later (List.mem_cons_of_mem _ member))
      have isPop := onlyPops entry List.mem_cons_self
      refine ⟨tick, entry :: newer, put.cons (by simp [isPop]),
        notPopped.cons (quiet entry List.mem_cons_self), overdue.imp (fun purged unpurged => ?_)
          (fun late => ?_)⟩
      · exact purged fun later member => unpurged later (List.mem_cons_of_mem _ member)
      · obtain ⟨call, answer⟩ := entry
        cases (isPop : call = .pop)
        exact late

/-- The node that `pop` returned was due. -/
theorem Run.due_of_pop {node : ν}
    (run : Run timeslots buckets ((.pop, .pointer (some (.node node))) :: history) world)
    (positive : 0 < timeslots) (bounded : progress history < 2 ^ 64 - timeslots) :
    Due history node := by
  cases run with
  | @step history before _ _ _ fuel earlier legal stepped =>
      obtain ⟨table, tracks, -, -, due⟩ := earlier.accounted positive bounded
      obtain ⟨next, returned, -⟩ := tracks.step positive legal
        (Nat.lt_of_lt_of_le (Nat.lt_succ_self _) (Nat.le_max_right fuel (table.live.length + 1)))
      have same := World.step_mono stepped (Nat.le_max_left fuel (table.live.length + 1))
      rw [returned] at same
      refine (due node).mp ?_
      obtain ⟨size, tick, live, exp⟩ := table
      cases exp with
      | nil => simp [tableAnswer, Table.pop] at same
      | cons first rest =>
          simp only [tableAnswer, Table.pop, Option.map_some, Option.some.injEq, Prod.mk.injEq,
            Answer.pointer.injEq, Cell.node.injEq] at same
          exact same.1 ▸ List.mem_cons_self

/-- When only pops follow a purge and the last of them answers null, every node has
been returned as often as a put of it was taken. -/
theorem Run.balanced {pops : History ν κ} {answer : Answer ν} {empty : World ν κ}
    (drained : Run timeslots buckets
      ((.pop, .pointer none) :: (pops ++ (.purge, answer) :: history)) empty)
    (positive : 0 < timeslots) (bounded : progress history < 2 ^ 64 - timeslots)
    (onlyPops : ∀ entry ∈ pops, entry.1 = .pop) (node : ν) :
    popped node pops + popped node history = accepted node history := by
  have still : progress ((.pop, .pointer none) :: (pops ++ (.purge, answer) :: history)) =
      progress history := by
    simp only [progress, progress_append, progress_pops onlyPops, Nat.zero_add]
  obtain ⟨table, -, accounted, emptied, -⟩ := drained.accounted positive (still.symm ▸ bounded)
  have noneExpired : table.exp = [] := emptied.expired _ rfl
  have noneLive : table.live = [] :=
    emptied.live ((.pop, .pointer none) :: pops) answer history rfl
      (List.forall_mem_cons.mpr ⟨rfl, onlyPops⟩)
  have balance := accounted.balance node
  simp only [Table.nodes, noneExpired, noneLive, List.map_nil, List.append_nil, List.count_nil,
    popped, accepted, List.countP_cons, List.countP_append, returns, takes, Bool.false_eq_true,
    ↓reduceIte] at balance
  have notTaken : pops.countP (takes node) = 0 := accepted_pops onlyPops node
  simp only [popped, accepted]
  omega

/-- A node that is due is among those returned before `pop` answers null. -/
theorem Run.returns_due {pops : History ν κ} {empty : World ν κ}
    (drained : Run timeslots buckets ((.pop, .pointer none) :: (pops ++ history)) empty)
    (positive : 0 < timeslots) (bounded : progress history < 2 ^ 64 - timeslots)
    (onlyPops : ∀ entry ∈ pops, entry.1 = .pop) {node : ν} (due : Due history node) :
    (.pop, .pointer (some (.node node))) ∈ pops := by
  by_contra quiet
  have still : progress ((.pop, .pointer none) :: (pops ++ history)) = progress history := by
    simp only [progress, progress_append, progress_pops onlyPops, Nat.zero_add]
  obtain ⟨table, -, -, emptied, expired⟩ := drained.accounted positive (still.symm ▸ bounded)
  have noneExpired : table.exp = [] := emptied.expired _ rfl
  have allPops : ∀ entry ∈ ((.pop, .pointer none) :: pops : History ν κ), entry.1 = .pop :=
    List.forall_mem_cons.mpr ⟨rfl, onlyPops⟩
  have unreturned : NoPop node ((.pop, .pointer none) :: pops : History ν κ) :=
    NoPop.cons (fun entry member same => quiet (same ▸ member)) (by simp)
  have inside := (expired node).mpr (due.pops allPops unreturned)
  rw [noneExpired] at inside
  cases inside

/-- **No node is lost, duplicated or returned early.** After a purge, popping
until null is possible, and once it is done every node has been returned exactly
as often as a put of it was taken. A node that `pop` returned was due at that
time, and a node that is due is among those returned before null. -/
theorem Run.conserves_nodes (run : Run timeslots buckets history world) (positive : 0 < timeslots)
    (bounded : progress history < 2 ^ 64 - timeslots) :
    (∃ pops empty, (∀ entry ∈ pops, entry.1 = .pop) ∧
      Run timeslots buckets ((.pop, .pointer none) :: (pops ++ (.purge, .done) :: history))
        empty) ∧
    (∀ pops answer empty, (∀ entry ∈ pops, entry.1 = .pop) →
      Run timeslots buckets ((.pop, .pointer none) :: (pops ++ (.purge, answer) :: history)) empty →
      ∀ node, popped node pops + popped node history = accepted node history) ∧
    (∀ node newer older, history = newer ++ (.pop, .pointer (some (.node node))) :: older →
      Due older node) ∧
    ∀ node, Due history node → ∀ pops empty, (∀ entry ∈ pops, entry.1 = .pop) →
      Run timeslots buckets ((.pop, .pointer none) :: (pops ++ history)) empty →
      (.pop, .pointer (some (.node node))) ∈ pops := by
  refine ⟨?_, fun pops answer empty onlyPops drained node =>
    drained.balanced positive bounded onlyPops node, ?_, fun node due pops empty onlyPops drained =>
      drained.returns_due positive bounded onlyPops due⟩
  · obtain ⟨table, tracks, -⟩ := run.accounted positive bounded
    obtain ⟨next, purged, -⟩ := run.call tracks positive .purge trivial
    exact purged.drains positive
  · rintro node newer older rfl
    obtain ⟨before, earlier⟩ := run.suffix
    rw [progress_append] at bounded
    have older : progress ((.pop, .pointer (some (.node node))) :: older) = progress older := rfl
    exact earlier.due_of_pop positive (by omega)

theorem Run.conserves_nodes_sample : ∃ world, Run 2 1 sampleHistory world ∧
    (∃ pops empty, (∀ entry ∈ pops, entry.1 = .pop) ∧
      Run 2 1 ((.pop, .pointer none) :: (pops ++ (.purge, .done) :: sampleHistory)) empty ∧
        popped 8 pops = 1) ∧
      Due sampleHistory.tail 7 := by
  obtain ⟨world, run⟩ := Run.sample
  obtain ⟨⟨pops, empty, onlyPops, drained⟩, balanced, early, -⟩ :=
    run.conserves_nodes (by decide) (by decide)
  refine ⟨world, run, ⟨pops, empty, onlyPops, drained, ?_⟩, early 7 [] _ rfl⟩
  exact balanced pops .done empty onlyPops drained 8

end Histories

end Devourer.LRUHash
