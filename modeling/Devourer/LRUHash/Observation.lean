import Devourer.LRUHash.History

/-! # What a client can observe of a table

The histories of a table are exactly those of the abstract table, which has no buckets and no
pointers (`Run.iff_spoken`). A client can therefore not tell how many buckets there are, nor
how the progress between its other calls is divided (`Run.regrouped`); this holds of the order
in which nodes are popped as well, and when the tick counter wraps.
-/

namespace Devourer

/-! ## Progress in parts -/

namespace Table

variable {ν : Type}

theorem sweep_add (slot : ℕ → ℕ) (i m n : ℕ) (table : Table ν) :
    table.sweep slot i (m + n) = (table.sweep slot i m).sweep slot (i + m) n := by
  induction m generalizing i table with
  | zero => rw [Nat.zero_add, Nat.add_zero, sweep]
  | succ m ih =>
      rw [Nat.add_right_comm, sweep, sweep, ih, Nat.add_right_comm, Nat.add_assoc]

theorem sweep_shift {slot slot' : ℕ → ℕ} {shift : ℕ} (same : ∀ i, slot' i = slot (shift + i))
    (i n : ℕ) (table : Table ν) : table.sweep slot' i n = table.sweep slot (shift + i) n := by
  induction n generalizing i table with
  | zero => rfl
  | succ n ih => rw [sweep, sweep, ih, same, Nat.add_assoc]

theorem sweep_with_currTick (slot : ℕ → ℕ) (i n tick : ℕ) (table : Table ν) :
    ({ table with currTick := tick }).sweep slot i n =
      { table.sweep slot i n with currTick := tick } := by
  induction n generalizing i table with
  | zero => rfl
  | succ n ih => exact ih (i + 1) (table.drain (slot i))

/-- **Progress in parts** is progress at once. -/
theorem prog_add (m n : ℕ) (table : Table ν) : table.prog (m + n) = (table.prog m).prog n := by
  have ticks : ∀ i, sizeT (sizeT (table.currTick + m) + i) = sizeT (table.currTick + (m + i)) := by
    intro i
    unfold sizeT
    rw [Nat.mod_add_mod, Nat.add_assoc]
  have later : ∀ i, (table.prog m).slotAt i = table.slotAt (m + i) := by
    intro i
    change sizeT (sizeT (table.currTick + m) + i) % (table.sweep _ 0 m).timeslotSize = _
    rw [ticks, sweep_timeslotSize]
    rfl
  have swept : (table.prog m).sweep (table.prog m).slotAt 0 n =
      { table.sweep table.slotAt 0 (m + n) with currTick := sizeT (table.currTick + m) } := by
    rw [sweep_shift later, sweep_add, Nat.add_zero, Nat.zero_add]
    exact sweep_with_currTick ..
  rw [prog, ← ticks, prog, swept]
  rfl

end Table

namespace LRUHash

variable {ν κ : Type} {timeslots buckets : ℕ} {history history' : History ν κ} {world : World ν κ}
  {virt : Virtual ν κ} {table : Table ν}

/-! ## Histories of the abstract table -/

/-- The histories of the abstract table, with the virtual functions of the nodes and the table
at their end. -/
inductive Spoken (timeslots : ℕ) : History ν κ → Virtual ν κ → Table ν → Prop where
  | fresh (virt : Virtual ν κ) : Spoken timeslots [] virt (.new timeslots)
  | call {history : History ν κ} {virt : Virtual ν κ} {table : Table ν} (call : Call ν κ) :
      Spoken timeslots history virt table → Legal history virt call →
      Spoken timeslots ((call, tableAnswer virt table call) :: history) (virtAfter virt call)
        (tableAfter table call)

/-! ## Progress regrouped -/

/-- Two histories that differ only in how progress is divided among calls. -/
inductive Regrouped : History ν κ → History ν κ → Prop where
  | refl (history : History ν κ) : Regrouped history history
  | cons {history history' : History ν κ} (entry : Call ν κ × Answer ν) :
      Regrouped history history' → Regrouped (entry :: history) (entry :: history')
  | split (m n : ℕ) (history : History ν κ) :
      Regrouped ((.prog (m + n), .done) :: history)
        ((.prog n, .done) :: (.prog m, .done) :: history)
  | merge (m n : ℕ) (history : History ν κ) :
      Regrouped ((.prog n, .done) :: (.prog m, .done) :: history)
        ((.prog (m + n), .done) :: history)
  | trans {history middle history' : History ν κ} : Regrouped history middle →
      Regrouped middle history' → Regrouped history history'

theorem Regrouped.symm (regrouped : Regrouped history history') : Regrouped history' history := by
  induction regrouped with
  | refl history => exact .refl history
  | cons entry _ ih => exact .cons entry ih
  | split m n history => exact .merge m n history
  | merge m n history => exact .split m n history
  | trans _ _ first second => exact second.trans first

/-- The client has the same nodes in the table. -/
theorem Regrouped.held (regrouped : Regrouped history history') (node : ν) :
    Held history node ↔ Held history' node := by
  induction regrouped generalizing node with
  | refl history => exact Iff.rfl
  | cons entry _ ih =>
      obtain ⟨call, answer⟩ := entry
      unfold Held
      split <;> simp_all
  | split m n history => exact Iff.rfl
  | merge m n history => exact Iff.rfl
  | trans _ _ first second => exact (first node).trans (second node)

theorem Regrouped.legal (regrouped : Regrouped history history') {call : Call ν κ}
    (legal : Legal history virt call) : Legal history' virt call := by
  cases call with
  | put tick node => exact fun held => legal ((regrouped.held node).mpr held)
  | mutate new => exact fun node held => legal node ((regrouped.held node).mpr held)
  | get _ _ | prog _ | pop | purge => exact trivial

/-- The abstract table does not tell how progress is divided. -/
theorem Regrouped.spoken (regrouped : Regrouped history history')
    (spoken : Spoken timeslots history virt table) : Spoken timeslots history' virt table := by
  induction regrouped generalizing virt table with
  | refl history => exact spoken
  | cons entry regrouped ih =>
      cases spoken with
      | call call earlier legal => exact (ih earlier).call call (regrouped.legal legal)
  | split m n history =>
      cases spoken with
      | @call _ virt table _ earlier _ =>
          have parts := (earlier.call (.prog m) trivial).call (.prog n) trivial
          have same : tableAfter table (.prog (m + n) : Call ν κ) =
            tableAfter (tableAfter table (.prog m : Call ν κ)) (.prog n : Call ν κ) :=
              Table.prog_add m n table
          rw [same]
          exact parts
  | merge m n history =>
      cases spoken with
      | call _ later _ =>
          cases later with
          | @call _ virt table _ earlier _ =>
              have once := earlier.call (.prog (m + n)) trivial
              have same : tableAfter table (.prog (m + n) : Call ν κ) =
                tableAfter (tableAfter table (.prog m : Call ν κ)) (.prog n : Call ν κ) :=
                  Table.prog_add m n table
              rw [same] at once
              exact once
  | trans _ _ first second => exact second (first spoken)

/-! ## Histories of tables -/

variable [DecidableEq ν]

/-- A history of a table is one of the abstract table. -/
theorem Run.spoken (run : Run timeslots buckets history world) (positive : 0 < timeslots) :
    ∃ table, Spoken timeslots history world.virt table ∧
      Tracks timeslots history world table := by
  induction run with
  | fresh virt => exact ⟨.new timeslots, .fresh virt, .fresh timeslots buckets virt⟩
  | @step history world next call answer fuel _ legal stepped ih =>
      obtain ⟨table, spoken, tracks⟩ := ih
      have enough := Nat.le_max_right fuel (table.live.length + 1)
      obtain ⟨after, returned, tracked⟩ := tracks.step positive legal enough
      have same := World.step_mono stepped (Nat.le_max_left fuel (table.live.length + 1))
      rw [returned] at same
      obtain ⟨rfl, rfl⟩ := Prod.mk.inj (Option.some.inj same)
      refine ⟨tableAfter table call, ?_, tracked⟩
      rw [World.step_virt stepped]
      exact spoken.call call legal

/-- A history of the abstract table is one of a table with any number of buckets. -/
theorem Spoken.run (spoken : Spoken timeslots history virt table) (positive : 0 < timeslots)
    (buckets : ℕ) : ∃ world, Run timeslots buckets history world ∧ world.virt = virt ∧
      Tracks timeslots history world table := by
  induction spoken with
  | fresh virt => exact ⟨_, .fresh virt, rfl, .fresh timeslots buckets virt⟩
  | @call history virt table call _ legal ih =>
      obtain ⟨world, run, rfl, tracks⟩ := ih
      obtain ⟨next, stepped, tracked⟩ :=
        tracks.step positive legal (Nat.lt_succ_self table.live.length)
      exact ⟨next, run.step legal stepped, World.step_virt stepped, tracked⟩

/-- **A table shows what the abstract table shows**, and shows all of it. -/
theorem Run.iff_spoken (positive : 0 < timeslots) (buckets : ℕ) :
    (∃ world, Run timeslots buckets history world ∧ world.virt = virt) ↔
      ∃ table, Spoken timeslots history virt table := by
  constructor
  · rintro ⟨world, run, rfl⟩
    obtain ⟨table, spoken, -⟩ := run.spoken positive
    exact ⟨table, spoken⟩
  · rintro ⟨table, spoken⟩
    obtain ⟨world, run, same, -⟩ := spoken.run positive buckets
    exact ⟨world, run, same⟩

/-- **What a client cannot observe**: the number of buckets, and how progress is divided among
calls. Two histories that differ only in the latter are histories of tables with whatever
numbers of buckets, or neither is. -/
theorem Run.regrouped (positive : 0 < timeslots) (buckets buckets' : ℕ)
    (regrouped : Regrouped history history') :
    (∃ world, Run timeslots buckets history world ∧ world.virt = virt) ↔
      ∃ world, Run timeslots buckets' history' world ∧ world.virt = virt := by
  rw [Run.iff_spoken positive, Run.iff_spoken positive]
  constructor
  · rintro ⟨table, spoken⟩
    exact ⟨table, regrouped.spoken spoken⟩
  · rintro ⟨table, spoken⟩
    exact ⟨table, regrouped.symm.spoken spoken⟩

/-- In the sample, the last tick of progress is made in two calls, and there are seven buckets. -/
theorem Run.regrouped_sample : ∃ world : World ℕ ℕ, Run 2 7
    [(.pop, .pointer (some (.node 7))), (.prog 1, .done), (.prog 0, .done),
      (.put 1 8, .accepted true), (.prog 1, .done), (.put 1 7, .accepted true)] world := by
  obtain ⟨world, run⟩ := Run.sample
  have regrouped := Regrouped.cons (.pop, .pointer (some (.node 7)))
    (Regrouped.split 0 1 (sampleHistory.drop 2))
  obtain ⟨world', run', -⟩ :=
    (Run.regrouped (by decide) 1 7 regrouped).mp ⟨world, run, rfl⟩
  exact ⟨world', run'⟩

end LRUHash

end Devourer
