import Devourer.Foundation.Wheel
import Devourer.LRUHash.Table

/-! # The deadline behind a timeslot

A client that follows one entry of a table knows its timeslot, which says nothing by itself;
with the tick counter it stands for a deadline. `Lease` relates the two while the counter
does not wrap around, so that the timeslots can be forgotten.
-/

namespace Devourer

variable {α : Type} {size tick ticks slot ttl : ℕ} {now until_ : ℤ} {value : α}

/-- The timeslot visited by the `i`th tick of progress. -/
def dial (size tick i : ℕ) : ℕ := sizeT (tick + i) % size

/-- The dial reaches a timeslot when its ticks have run out. -/
theorem visits_dial_iff (inside : slot < size) (bounded : tick + ticks < 2 ^ 64) :
    Table.Visits (dial size tick) 0 ticks slot ↔ Wheel.left size tick slot < ticks := by
  rw [← Wheel.left_lt_iff inside]
  unfold Table.Visits dial
  constructor
  · rintro ⟨i, -, below, named⟩
    rw [sizeT_of_lt (by omega)] at named
    exact ⟨i, by omega, named⟩
  · rintro ⟨i, below, named⟩
    refine ⟨i, Nat.zero_le i, by omega, ?_⟩
    rwa [sizeT_of_lt (by omega)]

/-- The entry of a timeslot is held until the second in which its ticks run out. -/
inductive Lease (size tick : ℕ) (now : ℤ) : Option (ℕ × α) → Option (ℤ × α) → Prop where
  | none : Lease size tick now .none .none
  | some (slot : ℕ) (value : α) : slot < size →
      Lease size tick now (some (slot, value)) (some (now + Wheel.left size tick slot, value))

namespace Lease

variable {filed : Option (ℕ × α)} {held : Option (ℤ × α)}

/-- An entry filed now is held for as many ticks as it was put for. -/
theorem put (short : ttl < size) (bounded : tick + ttl < 2 ^ 64) (value : α) :
    Lease size tick now (.some (sizeT (ttl + tick) % size, value))
      (.some (now + ttl, value)) := by
  have left : Wheel.left size tick (sizeT (ttl + tick) % size) = ttl := by
    rw [Nat.add_comm ttl, sizeT_of_lt bounded]
    exact Wheel.left_add short
  have lease : Lease size tick now (.some (sizeT (ttl + tick) % size, value)) _ :=
    .some _ value (Nat.mod_lt _ (Nat.zero_lt_of_lt short))
  rwa [left] at lease

/-- An entry that is filed is held, for as long as another value in its place would be. -/
theorem of_some (lease : Lease size tick now (.some (slot, value)) held) :
    ∃ until_, held = .some (until_, value) ∧ now ≤ until_ ∧
      ∀ other : α, Lease size tick now (.some (slot, other)) (.some (until_, other)) := by
  cases lease with
  | some _ _ inside => exact ⟨_, rfl, by omega, fun other => .some slot other inside⟩

/-- What is not filed is not held. -/
theorem of_none (lease : Lease size tick now .none held) : held = .none := by
  cases lease
  rfl

/-- An entry that is held is filed, and its deadline has not passed. -/
theorem of_held (lease : Lease size tick now filed (.some (until_, value))) :
    ∃ slot, filed = .some (slot, value) ∧ now ≤ until_ := by
  cases lease with
  | some slot _ inside => exact ⟨slot, rfl, by omega⟩

/-- What is not held is not filed. -/
theorem of_not_held (lease : Lease size tick now filed .none) : filed = .none := by
  cases lease
  rfl

/-- Progress reaches the entry when it passes the deadline. -/
theorem visits_iff (lease : Lease size tick now (.some (slot, value)) (.some (until_, value)))
    (bounded : tick + ticks < 2 ^ 64) :
    Table.Visits (dial size tick) 0 ticks slot ↔ until_ < now + ticks := by
  cases lease with
  | some _ _ inside =>
      rw [visits_dial_iff inside bounded]
      omega

/-- Progress that does not reach the entry leaves its deadline. -/
theorem advance (lease : Lease size tick now filed held) (bounded : tick + ticks < 2 ^ 64)
    (waiting : ∀ entry ∈ held, now + ticks ≤ entry.1) :
    Lease size (sizeT (tick + ticks)) (now + ticks) filed held := by
  rw [sizeT_of_lt bounded]
  cases lease with
  | none => exact .none
  | some slot value inside =>
      have late : ticks ≤ Wheel.left size tick slot := by
        have := waiting _ rfl
        omega
      have same : now + ticks + (Wheel.left size (tick + ticks) slot : ℤ) =
          now + Wheel.left size tick slot := by
        rw [Wheel.left_advance inside late]
        omega
      rw [← same]
      exact .some slot value inside

end Lease

end Devourer
