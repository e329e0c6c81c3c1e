import Mathlib.Data.Nat.ModEq

/-! # Arithmetic of a timing wheel

A wheel of `slots` positions is swept in cyclic order, one position per tick. A
deadline `wait` ticks ahead is filed under the position the sweep reaches at
that tick; because `wait` is smaller than the wheel, the sweep does not reach
this position any earlier (`Wheel.hit_iff`). Conversely the position alone tells
how many ticks are left (`Wheel.left`), so nothing but the position has to be
kept with an entry.
-/

namespace Wheel

variable {slots tick wait elapsed slot : ℕ}

/-- Two offsets below the wheel size that name one position are equal. -/
theorem offset_unique {other : ℕ} (short : wait < slots) (below : other < slots)
    (same : (tick + other) % slots = (tick + wait) % slots) : other = wait :=
  Nat.ModEq.eq_of_lt_of_lt (Nat.ModEq.add_left_cancel' tick same) below short

/-- **The sweep reaches a filed deadline exactly when it is due.** -/
theorem hit_iff (short : wait < slots) :
    (∃ i < elapsed, (tick + i) % slots = (tick + wait) % slots) ↔ wait < elapsed := by
  constructor
  · rintro ⟨i, before, same⟩
    by_contra late
    have close : i < slots := by omega
    have equal := offset_unique short close same
    omega
  · intro due
    exact ⟨wait, due, rfl⟩

/-- Ticks until the sweep reaches `slot`. -/
def left (slots tick slot : ℕ) : ℕ := (slot + (slots - tick % slots)) % slots

theorem left_lt (positive : 0 < slots) : left slots tick slot < slots :=
  Nat.mod_lt _ positive

theorem tick_add_left (inside : slot < slots) : (tick + left slots tick slot) % slots = slot := by
  have positive : 0 < slots := by omega
  have below : tick % slots < slots := Nat.mod_lt _ positive
  have cancel : tick % slots + (slot + (slots - tick % slots)) = slot + slots := by omega
  rw [left, Nat.add_mod_mod, ← Nat.mod_add_mod, cancel, Nat.add_mod_right,
    Nat.mod_eq_of_lt inside]

/-- The position of a deadline gives back the time to wait. -/
theorem left_add (short : wait < slots) : left slots tick ((tick + wait) % slots) = wait := by
  have positive : 0 < slots := by omega
  exact offset_unique short (left_lt positive) (tick_add_left (Nat.mod_lt _ positive))

/-- A position is swept within `elapsed` ticks exactly when its ticks run out. -/
theorem left_lt_iff (inside : slot < slots) :
    (∃ i < elapsed, (tick + i) % slots = slot) ↔ left slots tick slot < elapsed := by
  have positive : 0 < slots := by omega
  have short : left slots tick slot < slots := left_lt positive
  rw [← hit_iff short, tick_add_left inside]

/-- As long as the position is not swept, the ticks left count down. -/
theorem left_advance (inside : slot < slots) (waiting : elapsed ≤ left slots tick slot) :
    left slots (tick + elapsed) slot = left slots tick slot - elapsed := by
  have positive : 0 < slots := by omega
  have short : left slots tick slot - elapsed < slots :=
    (Nat.sub_le _ _).trans_lt (left_lt positive)
  have due : tick + elapsed + (left slots tick slot - elapsed) = tick + left slots tick slot := by
    omega
  calc left slots (tick + elapsed) slot
      = left slots (tick + elapsed)
          ((tick + elapsed + (left slots tick slot - elapsed)) % slots) := by
        rw [due, tick_add_left inside]
    _ = left slots tick slot - elapsed := left_add short

end Wheel
