import Devourer.Foundation.Ledger
import Devourer.LRUHash.Pool
import Mathlib.Data.List.Find

/-! # A pool is a ledger

What the objects of a pool say is kept in a ledger: while the tick counter does not wrap around,
the operations of the pool are those of the ledger, and neither pointers nor hash values, buckets
and timeslots are needed to tell what is found and what expires in which order.
-/

namespace Devourer

namespace Table

variable {ν : Type} {slot : ℕ → ℕ} {i count base tp : ℕ} {table : Table ν}

/-- The last tick drains one more timeslot. -/
theorem sweep_succ (slot : ℕ → ℕ) (i count : ℕ) (table : Table ν) :
    table.sweep slot i (count + 1) = (table.sweep slot i count).drain (slot (i + count)) := by
  induction count generalizing i table with
  | zero => rfl
  | succ count ih =>
      rw [sweep, ih, sweep, Nat.add_right_comm, Nat.add_assoc]

/-- The last tick visits one more timeslot. -/
theorem visits_succ_last :
    Visits slot i (count + 1) tp ↔ Visits slot i count tp ∨ slot (i + count) = tp := by
  constructor
  · rintro ⟨j, lower, upper, named⟩
    by_cases last : j = i + count
    · exact .inr (last ▸ named)
    · exact .inl ⟨j, lower, by omega, named⟩
  · rintro (⟨j, lower, upper, named⟩ | named)
    · exact ⟨j, lower, by omega, named⟩
    · exact ⟨i + count, Nat.le_add_right i count, by omega, named⟩

/-- **The order in which a sweep expires** the nodes, when timeslots are ranked by the turn at
which it comes to them. -/
theorem sweep_exp_eq (rank : ℕ → ℕ) (ranked : ∀ entry ∈ table.live, ∀ turn ≤ count,
      (Visits slot 0 turn entry.2 ↔ rank entry.2 < base + turn)) :
    (table.sweep slot 0 count).exp =
      (Ledger.byRank (fun entry => rank entry.2)
        (table.live.filter fun entry => rank entry.2 < base + count)).map Prod.fst ++
          table.exp := by
  induction count with
  | zero =>
      have none : table.live.filter (fun entry => rank entry.2 < base + 0) = [] := by
        apply List.filter_eq_nil_iff.mpr
        intro entry member early
        obtain ⟨j, lower, upper, -⟩ :=
          (ranked entry member 0 (Nat.le_refl 0)).mpr (of_decide_eq_true early)
        omega
      rw [none]
      rfl
  | succ count ih =>
      have here : (table.sweep slot 0 count).live.filter (fun entry => entry.2 = slot (0 + count)) =
          table.live.filter fun entry => rank entry.2 = base + count := by
        rw [sweep_live, List.filter_filter]
        apply List.filter_congr
        intro entry member
        have before := ranked entry member count (Nat.le_succ count)
        have after := ranked entry member (count + 1) (Nat.le_refl _)
        rw [visits_succ_last] at after
        rw [← Bool.decide_and, decide_eq_decide, before]
        rw [before] at after
        constructor
        · rintro ⟨named, notBefore⟩
          have := after.mp (.inr named.symm)
          omega
        · intro last
          have notBefore : ¬ rank entry.2 < base + count := by omega
          exact ⟨((after.mpr (by omega)).resolve_left notBefore).symm, notBefore⟩
      rw [sweep_succ, drain]
      dsimp only
      rw [here,
        ih fun entry member turn early => ranked entry member turn (Nat.le_succ_of_le early),
        ← List.append_assoc, ← List.map_reverse, ← List.map_append]
      exact congrArg (List.map Prod.fst · ++ _) (Ledger.byRank_filter_succ _ _ _).symm

end Table

namespace Pool

variable {α β κ : Type} {pool : Pool α} {read : α → β}

/-- What is read of the objects, with their deadlines. -/
def ledger (read : α → β) (pool : Pool α) : Ledger β where
  span := pool.table.timeslotSize
  now := pool.table.currTick
  entries := pool.table.live.map fun entry => (pool.deadline entry.2, read (pool.object entry.1))
  past := pool.table.exp.map fun id => read (pool.object id)

/-- Objects that are not held do not matter. -/
theorem ledger_congr {object : ℕ → α}
    (same : ∀ id ∈ pool.table.nodes, read (object id) = read (pool.object id)) (built : ℕ) :
    ledger read ⟨pool.table, object, built⟩ = pool.ledger read := by
  unfold ledger
  congr 1
  · apply List.map_congr_left
    intro entry member
    rw [same entry.1 (List.mem_append_left _ (List.mem_map_of_mem member))]
    rfl
  · apply List.map_congr_left
    exact fun id member => same id (List.mem_append_right _ member)

/-- A new object is not held yet. -/
theorem ledger_build (wf : pool.WF) (object : α) :
    (pool.build object).ledger read = pool.ledger read :=
  ledger_congr (fun id member => by rw [← build_object_of_lt (wf.below id member)]; rfl) _

/-- A new object may be changed before it is built. -/
theorem modify_build (object : α) (change : α → α) :
    (pool.build object).modify pool.built change = pool.build (change object) := by
  unfold modify build
  dsimp only
  rw [Function.update_self, Function.update_idem]

/-- An object that is not held may change. -/
theorem ledger_modify_of_not_mem {id : ℕ} (absent : id ∉ pool.table.nodes) (change : α → α) :
    (pool.modify id change).ledger read = pool.ledger read := by
  apply ledger_congr
  intro other member
  have differs : other ≠ id := fun same => absent (same ▸ member)
  exact congrArg read (modify_object_of_ne differs change)

/-- What is not read of an object may change. -/
theorem ledger_modify_of_unread (id : ℕ) {change : α → α}
    (unread : ∀ object, read (change object) = read object) :
    (pool.modify id change).ledger read = pool.ledger read :=
  ledger_congr (fun other _ => modify_read read change unread id other) _

/-- A node that is put has its deadline in the ledger, or is refused by both. -/
theorem ledger_put (bounded : pool.table.currTick + pool.table.timeslotSize ≤ 2 ^ 64) (ttl id : ℕ) :
    (pool.put ttl id).2.ledger read = (pool.ledger read).put ttl (read (pool.object id)) := by
  unfold put
  by_cases short : ttl < pool.table.timeslotSize
  · have entered : (pool.ledger read).put ttl (read (pool.object id)) = _ := if_pos short
    rw [Table.put_of_lt short, entered]
    unfold ledger
    dsimp only
    rw [← deadline_slotFor short (by omega)]
    rfl
  · have refused : (pool.ledger read).put ttl (read (pool.object id)) = _ := if_neg short
    rw [Table.put_of_le (Nat.not_lt.mp short), refused]

/-- An object that is built and put is entered. -/
theorem ledger_add (wf : pool.WF)
    (bounded : pool.table.currTick + pool.table.timeslotSize ≤ 2 ^ 64) (object : α) (ttl : ℕ) :
    ((pool.build object).put ttl pool.built).2.ledger read =
      (pool.ledger read).put ttl (read object) := by
  have unwrapped : (pool.build object).table.currTick +
      (pool.build object).table.timeslotSize ≤ 2 ^ 64 := bounded
  rw [ledger_put unwrapped, ledger_build wf, build_object_self]

/-- **Progress.** The nodes expire in the order of the ledger. -/
theorem ledger_prog (wf : pool.WF) {ticks : ℕ} (bounded : pool.table.currTick + ticks < 2 ^ 64) :
    (pool.prog ticks).ledger read = (pool.ledger read).prog ticks := by
  have ranked : ∀ entry ∈ pool.table.live, ∀ turn ≤ ticks,
      (Table.Visits pool.table.slotAt 0 turn entry.2 ↔
        pool.deadline entry.2 < pool.table.currTick + turn) := fun entry member turn early =>
    visits_iff (wf.table.inside entry member) (by omega)
  have exp := Table.sweep_exp_eq pool.deadline ranked
  have live : (pool.prog ticks).table.live = pool.table.live.filter fun entry =>
      pool.table.currTick + ticks ≤ pool.deadline entry.2 := by
    change (pool.table.sweep pool.table.slotAt 0 ticks).live = _
    rw [Table.sweep_live]
    apply List.filter_congr
    intro entry member
    rw [decide_eq_decide, ranked entry member ticks (Nat.le_refl _), Nat.not_lt]
  unfold ledger Ledger.prog
  dsimp only
  congr 1
  · exact Table.sweep_timeslotSize ..
  · exact sizeT_of_lt bounded
  · rw [live, List.filter_map]
    apply List.map_congr_left
    intro entry member
    obtain ⟨held, late⟩ := List.mem_filter.mp member
    rw [deadline_prog (wf.table.inside entry held) bounded (of_decide_eq_true late)]
    rfl
  · change (pool.table.sweep pool.table.slotAt 0 ticks).exp.map _ = _
    rw [exp, List.map_append, List.filter_map, ← Ledger.byRank_map, List.map_map, List.map_map]
    · rfl
    · exact fun _ _ _ _ => Iff.rfl

/-- Purging the pool purges the ledger: the timeslots are drained from the first on. -/
theorem ledger_purge (wf : pool.WF) :
    ledger read { pool with table := pool.table.purge } = (pool.ledger read).purge := by
  have ranked : ∀ entry ∈ pool.table.live, ∀ turn ≤ pool.table.timeslotSize,
      (Table.Visits (fun i => i) 0 turn entry.2 ↔ entry.2 < 0 + turn) := by
    intro entry _ turn _
    constructor
    · rintro ⟨j, -, upper, rfl⟩
      exact upper
    · exact fun early => ⟨entry.2, Nat.zero_le _, early, rfl⟩
  have all : pool.table.live.filter (fun entry => entry.2 < 0 + pool.table.timeslotSize) =
      pool.table.live := by
    apply List.filter_eq_self.mpr
    intro entry member
    rw [Nat.zero_add]
    exact decide_eq_true (wf.table.inside entry member)
  have turn : ∀ entry ∈ pool.table.live,
      pool.deadline entry.2 % pool.table.timeslotSize = entry.2 :=
    fun entry member => Wheel.tick_add_left (wf.table.inside entry member)
  have exp := Table.sweep_exp_eq (fun tp => tp) ranked
  unfold ledger Ledger.purge
  dsimp only
  congr 1
  · exact Table.sweep_timeslotSize ..
  · exact Table.sweep_currTick ..
  · exact List.map_eq_nil_iff.mpr (Table.purge_live wf.table.inside)
  · change (pool.table.sweep (fun i => i) 0 pool.table.timeslotSize).exp.map _ = _
    rw [exp, all, List.map_append, ← Ledger.byRank_map, List.map_map, List.map_map]
    · rfl
    · intro first here second there
      rw [turn first here, turn second there]

/-! ## Lookups -/

variable {virt : Virtual α κ} {hv : UInt64} {key : κ} {accepts : β → Bool}

/-- The entry that is found is read from the object that is found. -/
theorem find_ledger (accepted : ∀ id slot, pool.Live id slot →
      (virt.Answers hv key (pool.object id) ↔ accepts (read (pool.object id)) = true)) :
    (pool.ledger read).find accepts =
      (pool.get virt hv key).map fun id => read (pool.object id) := by
  have same : pool.table.live.find? (fun entry => accepts (read (pool.object entry.1))) =
      pool.table.live.find? fun entry => (pool.nodeVirt virt).Answers hv key entry.1 := by
    apply List.find?_congr
    intro entry member
    rw [Bool.eq_iff_iff, decide_eq_true_eq]
    exact (accepted entry.1 entry.2 member).symm
  unfold Ledger.find ledger get Table.get
  dsimp only
  rw [List.find?_map, Option.map_map, Option.map_map]
  exact congrArg _ same

/-- **A change of the object that is found** is a change of the entry. -/
theorem ledger_modify (wf : pool.WF) {id : ℕ} {change : α → α} {change' : β → β}
    (accepted : ∀ id slot, pool.Live id slot →
      (virt.Answers hv key (pool.object id) ↔ accepts (read (pool.object id)) = true))
    (found : pool.get virt hv key = some id)
    (changes : read (change (pool.object id)) = change' (read (pool.object id))) :
    (pool.modify id change).ledger read = (pool.ledger read).touch accepts change' := by
  obtain ⟨entry, searched, rfl⟩ := Option.map_eq_some_iff.mp found
  obtain ⟨answers, front, back, split, rejected⟩ := List.find?_eq_some_iff_append.mp searched
  have nodup := wf.table.live_nodup
  rw [split, List.map_append, List.map_cons, List.nodup_middle, List.nodup_cons,
    List.mem_append, not_or] at nodup
  obtain ⟨⟨before, after⟩, -⟩ := nodup
  have held : entry ∈ pool.table.live := split ▸ List.mem_append_right _ List.mem_cons_self
  have entries : ∀ part : List (ℕ × ℕ), entry.1 ∉ part.map Prod.fst →
      part.map (fun other => ((pool.modify entry.1 change).deadline other.2,
        read ((pool.modify entry.1 change).object other.1))) =
      part.map fun other => (pool.deadline other.2, read (pool.object other.1)) := by
    intro part absent
    apply List.map_congr_left
    intro other member
    have differs : other.1 ≠ entry.1 := fun same =>
      absent (List.mem_map.mpr ⟨other, member, same⟩)
    rw [modify_object_of_ne differs]
    rfl
  have expired : ∀ id ∈ pool.table.exp,
      read ((pool.modify entry.1 change).object id) = read (pool.object id) := by
    intro id member
    have differs : id ≠ entry.1 := fun same =>
      wf.table.not_mem_exp (List.mem_map_of_mem held) (same ▸ member)
    rw [modify_object_of_ne differs]
  have first : Ledger.changeFirst accepts change'
      (pool.table.live.map fun other => (pool.deadline other.2, read (pool.object other.1))) =
      front.map (fun other => (pool.deadline other.2, read (pool.object other.1))) ++
        (pool.deadline entry.2, change' (read (pool.object entry.1))) ::
          back.map fun other => (pool.deadline other.2, read (pool.object other.1)) := by
    rw [split, List.map_append, List.map_cons, Ledger.changeFirst_append]
    · intro other member
      obtain ⟨original, inside, rfl⟩ := List.mem_map.mp member
      have member : original ∈ pool.table.live := split ▸ List.mem_append_left _ inside
      have refused := rejected original inside
      rw [Bool.not_eq_true', decide_eq_false_iff_not] at refused
      exact Bool.eq_false_iff.mpr fun accept =>
        refused ((accepted original.1 original.2 member).mpr accept)
    · exact (accepted entry.1 entry.2 held).mp (of_decide_eq_true answers)
  have changed : ((pool.modify entry.1 change).table.live.map fun other =>
      ((pool.modify entry.1 change).deadline other.2,
        read ((pool.modify entry.1 change).object other.1))) =
      Ledger.changeFirst accepts change' (pool.ledger read).entries := by
    refine Eq.trans ?_ first.symm
    rw [← changes, ← entries front before, ← entries back after]
    change pool.table.live.map _ = _
    rw [split, List.map_append, List.map_cons, modify_object_self]
    rfl
  exact congrArg₂ (Ledger.mk _ _) changed (List.map_congr_left expired)

end Pool

end Devourer
