import Devourer.LRUHash.Pool

/-! # What can be read of a pool

The clients of a table read its live objects and nothing else. `Pool.Entry` lists
what is read of them with their timeslots. A client who asks for one key learns
even less: `Pool.Seen` says whether an object with the key is live, its timeslot
and what is read of it. Operations on other objects leave this as it is, whatever
buckets and timeslots they share with the one in question.
-/

namespace Devourer

namespace Pool

variable {α β : Type} {mine : α → Prop} {read : α → β} {pool : Pool α} {held : Option (ℕ × β)}

/-! ## Entries -/

/-- The object is live, filed under the timeslot, and reads as the value. -/
def Entry (read : α → β) (pool : Pool α) (id slot : ℕ) (value : β) : Prop :=
  pool.Live id slot ∧ read (pool.object id) = value

/-- Objects may be changed where nothing is read. -/
theorem entry_modify {changed : ℕ} {change : α → α}
    (unread : ∀ object, read (change object) = read object) (id slot : ℕ) (value : β) :
    (pool.modify changed change).Entry read id slot value ↔ pool.Entry read id slot value := by
  unfold Entry
  rw [modify_read read change unread, live_modify]

/-- A built object adds its own entry. -/
theorem entry_build_put (wf : pool.WF) (object : α) {ttl : ℕ}
    (short : ttl < pool.table.timeslotSize) (id slot : ℕ) (value : β) :
    ((pool.build object).put ttl pool.built).2.Entry read id slot value ↔
      pool.Entry read id slot value ∨
        id = pool.built ∧ slot = pool.table.slotFor ttl ∧ read object = value := by
  have old : ∀ {id slot}, pool.Live id slot →
      ((pool.build object).put ttl pool.built).2.object id = pool.object id :=
    fun live => build_object_of_lt (wf.live_lt live) object
  have added : ((pool.build object).put ttl pool.built).2.object pool.built = object :=
    build_object_self object
  unfold Entry
  rw [live_build_put_iff short]
  constructor
  · rintro ⟨live | ⟨rfl, filed⟩, reads⟩
    · rw [old live] at reads
      exact .inl ⟨live, reads⟩
    · rw [added] at reads
      exact .inr ⟨rfl, filed, reads⟩
  · rintro (⟨live, reads⟩ | ⟨rfl, filed, reads⟩)
    · refine ⟨.inl live, ?_⟩
      rwa [old live]
    · refine ⟨.inr ⟨rfl, filed⟩, ?_⟩
      rwa [added]

/-- Progress drops the entries whose timeslots it visits. -/
theorem entry_prog (tick id slot : ℕ) (value : β) :
    (pool.prog tick).Entry read id slot value ↔
      pool.Entry read id slot value ∧ ¬ Table.Visits pool.table.slotAt 0 tick slot := by
  unfold Entry
  rw [live_prog_iff, prog_object]
  exact and_right_comm

/-! ## One object -/

/-- What there is to see of the objects in question, of which at most one is live. -/
inductive Seen (mine : α → Prop) (read : α → β) (pool : Pool α) : Option (ℕ × β) → Prop where
  | absent : (∀ id slot, pool.Live id slot → ¬ mine (pool.object id)) → Seen mine read pool none
  | present (id slot : ℕ) : pool.Live id slot → mine (pool.object id) →
      (∀ other slot', pool.Live other slot' → mine (pool.object other) → other = id) →
      Seen mine read pool (some (slot, read (pool.object id)))

theorem Seen.new [Inhabited α] (timeslotSize : ℕ) :
    Seen mine read (Pool.new timeslotSize) none := .absent nofun

theorem Seen.unique (seen : pool.Seen mine read held) {id other slot slot' : ℕ}
    (live : pool.Live id slot) (own : mine (pool.object id)) (live' : pool.Live other slot')
    (own' : mine (pool.object other)) : id = other := by
  cases seen with
  | absent none => exact (none id slot live own).elim
  | present one slot'' _ _ only =>
      rw [only id slot live own, only other slot' live' own']

/-- A live object of ours is the one seen. -/
theorem Seen.eq_some (seen : pool.Seen mine read held) (wf : pool.WF) {id slot : ℕ}
    (live : pool.Live id slot) (own : mine (pool.object id)) :
    held = some (slot, read (pool.object id)) := by
  cases seen with
  | absent none => exact (none id slot live own).elim
  | present one slot' live' _ only =>
      obtain rfl := only id slot live own
      rw [wf.table.slot_unique live live']

theorem Seen.eq_none (seen : pool.Seen mine read held)
    (none : ∀ id slot, pool.Live id slot → ¬ mine (pool.object id)) : held = .none := by
  cases seen with
  | absent => rfl
  | present id slot live own => exact (none id slot live own).elim

/-- Other objects may be built and put. -/
theorem Seen.add_other (seen : pool.Seen mine read held) (wf : pool.WF) {object : α}
    (other : ¬ mine object) {ttl : ℕ} (short : ttl < pool.table.timeslotSize) :
    ((pool.build object).put ttl pool.built).2.Seen mine read held := by
  have old : ∀ {id slot}, pool.Live id slot →
      ((pool.build object).put ttl pool.built).2.object id = pool.object id :=
    fun live => build_object_of_lt (wf.live_lt live) object
  have added : ((pool.build object).put ttl pool.built).2.object pool.built = object :=
    build_object_self object
  cases seen with
  | absent none =>
      apply Seen.absent
      intro id slot live
      rcases (live_build_put_iff short id slot).mp live with live | ⟨rfl, -⟩
      · rw [old live]
        exact none id slot live
      · rwa [added]
  | present id slot live own only =>
      rw [← old live]
      apply Seen.present id slot
      · exact (live_build_put_iff short id slot).mpr (.inl live)
      · rwa [old live]
      · intro one slot' live' own'
        rcases (live_build_put_iff short one slot').mp live' with live' | ⟨rfl, -⟩
        · rw [old live'] at own'
          exact only one slot' live' own'
        · rw [added] at own'
          exact (other own').elim

/-- An object of ours is built and put when none is live. -/
theorem Seen.add_own (seen : pool.Seen mine read none) (wf : pool.WF) {object : α}
    (own : mine object) {ttl : ℕ} (short : ttl < pool.table.timeslotSize) :
    ((pool.build object).put ttl pool.built).2.Seen mine read
      (some (pool.table.slotFor ttl, read object)) := by
  have added : ((pool.build object).put ttl pool.built).2.object pool.built = object :=
    build_object_self object
  cases seen with
  | absent none =>
      have here : ((pool.build object).put ttl pool.built).2.Seen mine read
          (some (pool.table.slotFor ttl,
            read (((pool.build object).put ttl pool.built).2.object pool.built))) := by
        apply Seen.present
        · exact (live_build_put_iff short _ _).mpr (.inr ⟨rfl, rfl⟩)
        · rwa [added]
        · intro one slot live own'
          rcases (live_build_put_iff short one slot).mp live with live | ⟨rfl, -⟩
          · have same : ((pool.build object).put ttl pool.built).2.object one = pool.object one :=
              build_object_of_lt (wf.live_lt live) object
            rw [same] at own'
            exact (none one slot live own').elim
          · rfl
      rwa [added] at here

/-- Other objects may be changed, as long as they stay others. -/
theorem Seen.modify_other (seen : pool.Seen mine read held) {id : ℕ} {change : α → α}
    (other : ¬ mine (pool.object id)) (still : ¬ mine (change (pool.object id))) :
    (pool.modify id change).Seen mine read held := by
  have keeps : ∀ one, mine ((pool.modify id change).object one) → mine (pool.object one) := by
    intro one own
    by_cases self : one = id
    · subst self
      rw [modify_object_self] at own
      exact (still own).elim
    · rwa [modify_object_of_ne self] at own
  cases seen with
  | absent none =>
      apply Seen.absent
      exact fun one slot live own => none one slot live (keeps one own)
  | present one slot live own only =>
      have apart : one ≠ id := fun self => other (self ▸ own)
      rw [← modify_object_of_ne apart change]
      have live' : (pool.modify id change).Live one slot := live
      apply Seen.present one slot live'
      · rwa [modify_object_of_ne apart]
      · exact fun another slot' other own' => only another slot' other (keeps another own')

/-- Our object may be changed, as long as it stays ours. -/
theorem Seen.modify_own (seen : pool.Seen mine read held) {id slot : ℕ} {change : α → α}
    (live : pool.Live id slot) (own : mine (pool.object id))
    (still : mine (change (pool.object id))) :
    (pool.modify id change).Seen mine read (some (slot, read (change (pool.object id)))) := by
  have live' : (pool.modify id change).Live id slot := live
  rw [← modify_object_self id change]
  apply Seen.present id slot live'
  · rwa [modify_object_self]
  · intro other slot' another own'
    by_contra apart
    rw [modify_object_of_ne apart] at own'
    exact apart (seen.unique another own' live own)

/-- Progress drops the object when it visits its timeslot. -/
theorem Seen.prog (seen : pool.Seen mine read held) (wf : pool.WF) (tick : ℕ) :
    (pool.prog tick).Seen mine read
      (held.filter fun entry => ¬ Table.Visits pool.table.slotAt 0 tick entry.1) := by
  cases seen with
  | absent none =>
      apply Seen.absent
      intro id slot live
      exact none id slot ((live_prog_iff tick id slot).mp live).1
  | present id slot live own only =>
      have onlyLeft : ∀ other slot', (pool.prog tick).Live other slot' → mine (pool.object other) →
          other = id ∧ slot' = slot := by
        intro other slot' left own'
        have live' := ((live_prog_iff tick other slot').mp left).1
        obtain rfl := only other slot' live' own'
        exact ⟨rfl, wf.table.slot_unique live' live⟩
      by_cases visited : Table.Visits pool.table.slotAt 0 tick slot
      · simp only [Option.filter_some, visited, not_true_eq_false, decide_false, Bool.false_eq_true,
          ↓reduceIte]
        apply Seen.absent
        intro other slot' left own'
        obtain ⟨rfl, rfl⟩ := onlyLeft other slot' left own'
        exact ((live_prog_iff tick other slot').mp left).2 visited
      · simp only [Option.filter_some, visited, not_false_eq_true, decide_true, ↓reduceIte]
        have left : (pool.prog tick).Live id slot :=
          (live_prog_iff tick id slot).mpr ⟨live, visited⟩
        apply Seen.present id slot left
        · exact own
        · exact fun other slot' left own' => (onlyLeft other slot' left own').1

end Pool

end Devourer
