import Mathlib.Data.List.Induction
import Mathlib.Data.List.TakeDrop
import Mathlib.Data.List.TakeWhile
import Mathlib.Data.Nat.Digits.Defs

/-! # Numbers in front of a text

A reader of numbers takes the digits at the front of a text, as many as there are, and
adds them up on its way. `Digits.number` is the number that the digits stand for; the two
lemmas about the end of the digits say what the reader takes and what it leaves.
-/

namespace Digits

variable {α : Type*} {p : α → Bool} {front rest : List α}

/-- The number written in the base, its first digit the highest. -/
def number (base : ℕ) (value : α → ℕ) (digits : List α) : ℕ :=
  Nat.ofDigits base (digits.reverse.map value)

/-- The digits are added up from the front. -/
theorem foldl_eq_number (base : ℕ) (value : α → ℕ) (digits : List α) :
    digits.foldl (fun sum digit => base * sum + value digit) 0 = number base value digits := by
  induction digits using List.reverseRecOn with
  | nil => rfl
  | append_singleton digits digit ih =>
      unfold number at ih ⊢
      rw [List.foldl_append, ih, List.reverse_append, List.reverse_singleton, List.singleton_append,
        List.map_cons, Nat.ofDigits_cons, List.foldl_cons, List.foldl_nil]
      exact Nat.add_comm ..

/-- A zero in front changes nothing. -/
theorem number_cons_zero (base : ℕ) {value : α → ℕ} {digit : α} (zero : value digit = 0)
    (digits : List α) : number base value (digit :: digits) = number base value digits := by
  unfold number
  rw [List.reverse_cons, List.map_append, Nat.ofDigits_append, List.map_singleton, zero]
  simp

/-- The reader takes what can be taken up to where it has to stop. -/
theorem takeWhile_append (taken : ∀ char ∈ front, p char) (stops : ∀ char ∈ rest.head?, ¬ p char) :
    (front ++ rest).takeWhile p = front := by
  rw [List.takeWhile_append_of_pos taken]
  cases rest with
  | nil => exact List.append_nil front
  | cons char rest =>
      have stop := stops char rfl
      rw [List.takeWhile_cons_of_neg stop, List.append_nil]

theorem dropWhile_append (taken : ∀ char ∈ front, p char) (stops : ∀ char ∈ rest.head?, ¬ p char) :
    (front ++ rest).dropWhile p = rest := by
  rw [List.dropWhile_append_of_pos taken]
  cases rest with
  | nil => rfl
  | cons char rest => exact List.dropWhile_cons_of_neg (stops char rfl)

/-- What comes first after the part taken cannot be taken. -/
theorem not_head_dropWhile (p : α → Bool) (text : List α) :
    ∀ char ∈ (text.dropWhile p).head?, ¬ p char := by
  intro char first
  have stop := List.head?_dropWhile_not p text
  rw [Option.mem_def] at first
  rw [first] at stop
  simpa using stop

end Digits
