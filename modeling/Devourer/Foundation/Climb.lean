import Mathlib.Algebra.Order.Group.Defs
import Mathlib.Algebra.Order.Group.Unbundled.Basic
import Mathlib.Algebra.Order.Monoid.Unbundled.Basic
import Mathlib.Order.MinMax

/-! # Rises of a sequence

The rises of a sequence, from one element to the next, add up to at least the
height of its largest element above the first. They add up to no more exactly when
every rise starts from the largest element so far (`rises_eq_iff`).
-/

variable {α : Type*} [AddCommGroup α] [LinearOrder α]

/-- The sum of the rises from one element to the next, after the element `last`. -/
def rises : α → List α → α
  | _, [] => 0
  | last, next :: rest => max 0 (next - last) + rises next rest

/-- Every rise starts from the largest element so far. The elements before were at most
`top`, and the last of them was `last`. -/
def Climbing : α → α → List α → Prop
  | _, _, [] => True
  | top, last, next :: rest => (last < next → last = top) ∧ Climbing (max top next) next rest

instance decidableClimbing :
    (top last : α) → (rest : List α) → Decidable (Climbing top last rest)
  | _, _, [] => instDecidableTrue
  | top, _, next :: rest => @instDecidableAnd _ _ inferInstance
      (decidableClimbing (max top next) next rest)

omit [AddCommGroup α] in
theorem Climbing.take {top last : α} {rest : List α} (climbing : Climbing top last rest) (n : ℕ) :
    Climbing top last (rest.take n) := by
  induction rest generalizing top last n with
  | nil => rwa [List.take_nil]
  | cons next rest ih =>
      cases n with
      | zero => exact trivial
      | succ n => exact ⟨climbing.1, ih climbing.2 n⟩

variable [IsOrderedAddMonoid α]

/-- One element raises the top by no more than the rise to it, and by less if the rise
starts below the top. -/
theorem raise_eq_iff {top last : α} (below : last ≤ top) (next : α) :
    max top next - top ≤ max 0 (next - last) ∧
      (max top next - top = max 0 (next - last) ↔ (last < next → last = top)) := by
  rcases le_or_gt next last with falls | rises
  · rw [max_eq_left (falls.trans below), max_eq_left (sub_nonpos.mpr falls), sub_self]
    exact ⟨le_rfl, iff_of_true rfl fun absurd => (absurd.not_ge falls).elim⟩
  · rw [max_eq_right (sub_pos.mpr rises).le]
    rcases le_or_gt next top with under | above
    · rw [max_eq_left under, sub_self]
      refine ⟨(sub_pos.mpr rises).le, iff_of_false (sub_pos.mpr rises).ne fun start => ?_⟩
      exact (rises.trans_le under).ne (start rises)
    · rw [max_eq_right above.le]
      refine ⟨sub_le_sub_left below next, ?_⟩
      rw [sub_right_inj, eq_comm]
      exact ⟨fun same _ => same, fun start => start rises⟩

/-- The rises add up to at least the height of the largest element above `top`, and to
no more exactly when every rise starts from the largest element so far. -/
theorem rises_eq_iff {top last : α} (below : last ≤ top) (rest : List α) :
    rest.foldl max top - top ≤ rises last rest ∧
      (rest.foldl max top - top = rises last rest ↔ Climbing top last rest) := by
  induction rest generalizing top last with
  | nil =>
      rw [List.foldl_nil, sub_self]
      exact ⟨le_rfl, iff_of_true rfl trivial⟩
  | cons next rest ih =>
      obtain ⟨least, exact⟩ := raise_eq_iff below next
      obtain ⟨rest_least, rest_exact⟩ := ih (le_max_right top next)
      rw [List.foldl_cons, ← sub_add_sub_cancel' (max top next) top]
      refine ⟨add_le_add least rest_least, ?_⟩
      rw [rises, add_eq_add_iff_eq_and_eq least rest_least, exact, rest_exact]
      rfl
