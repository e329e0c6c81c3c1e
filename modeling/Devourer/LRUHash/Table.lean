import Devourer.LRUHash.Pointer
import Mathlib.Data.List.Nodup
import Mathlib.Data.List.Perm.Basic

/-! # The timer hash table as lists

The abstract table forgets the pointers. Its nodes are either live, each filed
under the timeslot that will expire it, or expired and waiting to be popped. The
live nodes stand in one list, the most recent put first: a bucket chain and a
timeslot list are both parts of it in this order, so neither has to be kept
apart, and the number of buckets does not appear at all.
-/

namespace Devourer

variable {ν κ : Type}

/-- The abstract table: live nodes with their timeslots, and expired nodes in
the order in which they will be popped. -/
structure Table (ν : Type) where
  timeslotSize : ℕ
  currTick : ℕ
  live : List (ν × ℕ)
  exp : List ν

namespace Table

/-- The freshly built table. -/
def new (timeslotSize : ℕ) : Table ν := ⟨timeslotSize, 0, [], []⟩

/-- The timeslot of a node put now for `tick` ticks. -/
def slotFor (table : Table ν) (tick : ℕ) : ℕ := sizeT (tick + table.currTick) % table.timeslotSize

def put (tick : ℕ) (node : ν) (table : Table ν) : Bool × Table ν :=
  if table.timeslotSize ≤ tick then (false, table)
  else (true, { table with live := (node, table.slotFor tick) :: table.live })

def get (virt : Virtual ν κ) (hv : UInt64) (key : κ) (table : Table ν) : Option ν :=
  (table.live.find? fun entry => virt.Answers hv key entry.1).map Prod.fst

/-- Expire the nodes of one timeslot. -/
def drain (tp : ℕ) (table : Table ν) : Table ν :=
  { table with
    live := table.live.filter (fun entry => entry.2 ≠ tp)
    exp := ((table.live.filter (fun entry => entry.2 = tp)).map Prod.fst).reverse ++ table.exp }

/-- Expire the timeslots `slot i` for `count` values of `i` from the given one. -/
def sweep (slot : ℕ → ℕ) : ℕ → ℕ → Table ν → Table ν
  | _, 0, table => table
  | i, count + 1, table => sweep slot (i + 1) count (table.drain (slot i))

/-- The timeslot visited by the `i`th tick of `prog`. -/
def slotAt (table : Table ν) (i : ℕ) : ℕ := sizeT (table.currTick + i) % table.timeslotSize

def prog (tick : ℕ) (table : Table ν) : Table ν :=
  { table.sweep table.slotAt 0 tick with currTick := sizeT (table.currTick + tick) }

def pop (table : Table ν) : Option ν × Table ν :=
  match table.exp with
  | [] => (none, table)
  | node :: rest => (some node, { table with exp := rest })

def purge (table : Table ν) : Table ν := table.sweep (fun i => i) 0 table.timeslotSize

/-- The nodes the table holds, live or expired. -/
def nodes (table : Table ν) : List ν := table.live.map Prod.fst ++ table.exp

/-- Every node is held once, and every live node in an existing timeslot. -/
structure WF (table : Table ν) : Prop where
  nodup : table.nodes.Nodup
  inside : ∀ entry ∈ table.live, entry.2 < table.timeslotSize

/-- A live node stands in some timeslot. -/
theorem exists_slot {table : Table ν} {node : ν} (live : node ∈ table.live.map Prod.fst) :
    ∃ tp, (node, tp) ∈ table.live := by
  obtain ⟨⟨other, tp⟩, entry, named⟩ := List.mem_map.mp live
  exact ⟨tp, (named : other = node) ▸ entry⟩

namespace WF

variable {table : Table ν}

theorem live_nodup (wf : table.WF) : (table.live.map Prod.fst).Nodup :=
  (List.nodup_append.mp wf.nodup).1

theorem exp_nodup (wf : table.WF) : table.exp.Nodup := (List.nodup_append.mp wf.nodup).2.1

/-- No node is both live and expired. -/
theorem not_mem_exp (wf : table.WF) {node : ν} (live : node ∈ table.live.map Prod.fst) :
    node ∉ table.exp := fun expired =>
  (List.nodup_append.mp wf.nodup).2.2 node live node expired rfl

/-- A live node stands in one timeslot only. -/
theorem slot_unique (wf : table.WF) {node : ν} {first second : ℕ}
    (here : (node, first) ∈ table.live) (there : (node, second) ∈ table.live) :
    first = second := by
  have same := List.inj_on_of_nodup_map wf.live_nodup here there rfl
  exact congrArg Prod.snd same

end WF

theorem new_wf (timeslotSize : ℕ) : (new timeslotSize : Table ν).WF :=
  ⟨List.nodup_nil, fun _ member => by cases member⟩

/-! ## Putting and popping -/

theorem put_of_lt {tick : ℕ} {node : ν} {table : Table ν} (short : tick < table.timeslotSize) :
    table.put tick node =
      (true, { table with live := (node, table.slotFor tick) :: table.live }) := by
  simp only [put, Nat.not_le.mpr short, ↓reduceIte]

theorem put_of_le {tick : ℕ} {node : ν} {table : Table ν} (long : table.timeslotSize ≤ tick) :
    table.put tick node = (false, table) := by
  simp only [put, long, ↓reduceIte]

theorem slotFor_lt {table : Table ν} {tick : ℕ} (short : tick < table.timeslotSize) :
    table.slotFor tick < table.timeslotSize :=
  Nat.mod_lt _ (Nat.zero_lt_of_lt short)

/-- A node that is not held may be put. -/
theorem WF.put {table : Table ν} (wf : table.WF) {node : ν} (fresh : node ∉ table.nodes)
    (tick : ℕ) : (table.put tick node).2.WF := by
  by_cases short : tick < table.timeslotSize
  · rw [put_of_lt short]
    refine ⟨List.nodup_cons.mpr ⟨fresh, wf.nodup⟩, fun entry member => ?_⟩
    rcases List.mem_cons.mp member with rfl | member
    · exact slotFor_lt short
    · exact wf.inside entry member
  · rw [put_of_le (Nat.not_lt.mp short)]
    exact wf

theorem WF.pop {table : Table ν} (wf : table.WF) : table.pop.2.WF := by
  obtain ⟨size, tick, live, exp⟩ := table
  cases exp with
  | nil => exact wf
  | cons node rest =>
      refine ⟨?_, wf.inside⟩
      exact (List.nodup_middle.mp wf.nodup).of_cons

/-! ## Sweeping -/

@[simp] theorem drain_timeslotSize (tp : ℕ) (table : Table ν) :
    (table.drain tp).timeslotSize = table.timeslotSize := rfl

@[simp] theorem sweep_timeslotSize (slot : ℕ → ℕ) (i count : ℕ) (table : Table ν) :
    (table.sweep slot i count).timeslotSize = table.timeslotSize := by
  induction count generalizing i table with
  | zero => rfl
  | succ count ih => exact ih (i + 1) (table.drain (slot i))

@[simp] theorem sweep_currTick (slot : ℕ → ℕ) (i count : ℕ) (table : Table ν) :
    (table.sweep slot i count).currTick = table.currTick := by
  induction count generalizing i table with
  | zero => rfl
  | succ count ih => exact ih (i + 1) (table.drain (slot i))

/-- The timeslots a sweep visits. -/
def Visits (slot : ℕ → ℕ) (i count tp : ℕ) : Prop := ∃ j, i ≤ j ∧ j < i + count ∧ slot j = tp

theorem visits_succ {slot : ℕ → ℕ} {i count tp : ℕ} :
    Visits slot i (count + 1) tp ↔ slot i = tp ∨ Visits slot (i + 1) count tp := by
  constructor
  · rintro ⟨j, lower, upper, named⟩
    by_cases first : j = i
    · exact .inl (first ▸ named)
    · exact .inr ⟨j, by omega, by omega, named⟩
  · rintro (named | ⟨j, lower, upper, named⟩)
    · exact ⟨i, Nat.le_refl i, by omega, named⟩
    · exact ⟨j, by omega, by omega, named⟩

instance (slot : ℕ → ℕ) (i count tp : ℕ) : Decidable (Visits slot i count tp) :=
  decidable_of_iff (∃ j < count, slot (i + j) = tp) <| by
    constructor
    · rintro ⟨j, below, named⟩
      exact ⟨i + j, Nat.le_add_right i j, by omega, named⟩
    · rintro ⟨j, lower, upper, named⟩
      exact ⟨j - i, by omega, by rwa [Nat.add_sub_cancel' lower]⟩

/-- A sweep leaves the live nodes whose timeslots it does not visit. -/
theorem sweep_live (slot : ℕ → ℕ) (i count : ℕ) (table : Table ν) :
    (table.sweep slot i count).live =
      table.live.filter (fun entry => ¬ Visits slot i count entry.2) := by
  induction count generalizing i table with
  | zero =>
      refine (List.filter_eq_self.mpr fun entry _ => ?_).symm
      refine decide_eq_true ?_
      rintro ⟨j, lower, upper, -⟩
      omega
  | succ count ih =>
      rw [sweep, ih, drain, List.filter_filter]
      refine List.filter_congr fun entry _ => ?_
      rw [← Bool.decide_and]
      refine decide_eq_decide.mpr ?_
      rw [visits_succ, not_or, and_comm]
      exact and_congr_left' (not_congr eq_comm)

/-- The nodes a sweep expires come before those that were expired already. -/
theorem sweep_exp (slot : ℕ → ℕ) (i count : ℕ) (table : Table ν) :
    ∃ moved : List ν, (table.sweep slot i count).exp = moved ++ table.exp ∧
      moved.Perm ((table.live.filter (fun entry => Visits slot i count entry.2)).map
        Prod.fst) := by
  induction count generalizing i table with
  | zero =>
      refine ⟨[], rfl, ?_⟩
      have none : table.live.filter (fun entry => Visits slot i 0 entry.2) = [] := by
        refine List.filter_eq_nil_iff.mpr fun entry _ visited => ?_
        obtain ⟨j, lower, upper, -⟩ := of_decide_eq_true visited
        omega
      rw [none]
      exact List.Perm.refl _
  | succ count ih =>
      obtain ⟨moved, expired, permuted⟩ := ih (i + 1) (table.drain (slot i))
      refine ⟨moved ++ ((table.live.filter (fun entry => entry.2 = slot i)).map
        Prod.fst).reverse, ?_, ?_⟩
      · rw [sweep, expired, drain, List.append_assoc]
      · have here := (List.reverse_perm ((table.live.filter
          (fun entry => entry.2 = slot i)).map Prod.fst))
        refine (permuted.append here).trans ?_
        rw [← List.map_append]
        refine List.Perm.map _ ?_
        rw [drain, List.filter_filter]
        have split := List.filter_append_perm (fun entry : ν × ℕ => decide (entry.2 ≠ slot i))
          (table.live.filter (fun entry => Visits slot i (count + 1) entry.2))
        refine List.Perm.trans (List.Perm.append (List.Perm.of_eq ?_) (List.Perm.of_eq ?_)) split
        · rw [List.filter_filter]
          refine List.filter_congr fun entry _ => ?_
          rw [← Bool.decide_and, ← Bool.decide_and]
          refine decide_eq_decide.mpr ?_
          rw [visits_succ]
          constructor
          · rintro ⟨later, off⟩
            exact ⟨off, .inr later⟩
          · rintro ⟨off, here | later⟩
            · exact (off here.symm).elim
            · exact ⟨later, off⟩
        · rw [List.filter_filter]
          refine List.filter_congr fun entry _ => ?_
          rw [← decide_not, ← Bool.decide_and]
          refine decide_eq_decide.mpr ?_
          rw [visits_succ, not_not]
          exact ⟨fun here => ⟨here, .inl here.symm⟩, fun both => both.1⟩

/-- A sweep moves nodes to the expired list and neither adds nor drops one. -/
theorem sweep_nodes (slot : ℕ → ℕ) (i count : ℕ) (table : Table ν) :
    (table.sweep slot i count).nodes.Perm table.nodes := by
  obtain ⟨moved, expired, permuted⟩ := sweep_exp slot i count table
  rw [nodes, expired, sweep_live, nodes, ← List.append_assoc]
  refine List.Perm.append_right _ ((List.Perm.append_left _ permuted).trans ?_)
  rw [← List.map_append]
  refine List.Perm.map _ ?_
  have split := List.filter_append_perm
    (fun entry : ν × ℕ => decide (¬ Visits slot i count entry.2)) table.live
  simpa only [← decide_not, not_not] using split

theorem WF.sweep {table : Table ν} (wf : table.WF) (slot : ℕ → ℕ) (i count : ℕ) :
    (table.sweep slot i count).WF := by
  refine ⟨(sweep_nodes slot i count table).nodup_iff.mpr wf.nodup, fun entry member => ?_⟩
  rw [sweep_live] at member
  rw [sweep_timeslotSize]
  exact wf.inside entry (List.mem_filter.mp member).1

/-- A purge leaves no node live. -/
theorem purge_live {table : Table ν} (inside : ∀ entry ∈ table.live, entry.2 < table.timeslotSize) :
    table.purge.live = [] := by
  rw [purge, sweep_live]
  apply List.filter_eq_nil_iff.mpr
  intro entry member
  rw [decide_eq_true_eq, not_not]
  exact ⟨entry.2, Nat.zero_le _, by simpa using inside entry member, rfl⟩

/-- A purge expires all nodes. -/
theorem WF.purge_exp {table : Table ν} (wf : table.WF) : table.purge.exp.Perm table.nodes := by
  have same := sweep_nodes (fun i => i) 0 table.timeslotSize table
  change table.purge.nodes.Perm _ at same
  rwa [nodes, purge_live wf.inside] at same

end Table

end Devourer
