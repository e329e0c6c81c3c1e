import Mathlib.Data.List.Sort

/-! # Ledgers

A ledger keeps entries for a number of ticks. Entries past their deadlines leave it, those with
the latest deadline first and the oldest first among those with the same, and wait to be taken.
-/

/-- The entries that are kept, with their deadlines, the newest first; those that have left, in
the order in which they are taken; and the ticks that have passed. Entries are kept for fewer
ticks than the span. -/
structure Ledger (α : Type*) where
  span : ℕ
  now : ℕ
  entries : List (ℕ × α)
  past : List α

namespace Ledger

variable {α : Type*}

/-! ## The order of leaving -/

/-- From the highest rank to the lowest, those of one rank from the last to the first. -/
def byRank (rank : α → ℕ) (list : List α) : List α :=
  list.insertionSort fun first second => rank second < rank first

theorem byRank_map {β : Type*} {rank : α → ℕ} {rank' : β → ℕ} {list : List α} (f : α → β)
    (same : ∀ first ∈ list, ∀ second ∈ list,
      rank second < rank first ↔ rank' (f second) < rank' (f first)) :
    (byRank rank list).map f = byRank rank' (list.map f) :=
  List.map_insertionSort _ _ f list same

/-- An entry goes behind those of a rank that is not lower. -/
theorem orderedInsert_append (rank : α → ℕ) (value : α) {front : List α} (back : List α)
    (higher : ∀ other ∈ front, rank value ≤ rank other) :
    (front ++ back).orderedInsert (fun first second => rank second < rank first) value =
      front ++ back.orderedInsert (fun first second => rank second < rank first) value := by
  induction front with
  | nil => rfl
  | cons other front ih =>
      have behind : ¬ rank other < rank value := Nat.not_lt.mpr (higher other List.mem_cons_self)
      rw [List.cons_append, List.orderedInsert_cons, if_neg behind, List.cons_append,
        ih fun other member => higher other (List.mem_cons_of_mem _ member)]

/-- An entry goes before those of a lower rank. -/
theorem orderedInsert_of_lower (rank : α → ℕ) (value : α) {list : List α}
    (lower : ∀ other ∈ list, rank other < rank value) :
    list.orderedInsert (fun first second => rank second < rank first) value = value :: list := by
  cases list with
  | nil => rfl
  | cons other rest => exact List.orderedInsert_cons_of_le _ _ (lower other List.mem_cons_self)

/-- **One rank more.** Its entries come first, from the last to the first. -/
theorem byRank_filter_succ (rank : α → ℕ) (bound : ℕ) (list : List α) :
    byRank rank (list.filter (rank · < bound + 1)) =
      (list.filter (rank · = bound)).reverse ++ byRank rank (list.filter (rank · < bound)) := by
  induction list with
  | nil => rfl
  | cons value rest ih =>
      have top : ∀ other ∈ (rest.filter (rank · = bound)).reverse, rank other = bound := by
        intro other member
        exact of_decide_eq_true (List.mem_filter.mp (List.mem_reverse.mp member)).2
      have lower : ∀ other ∈ byRank rank (rest.filter (rank · < bound)), rank other < bound := by
        intro other member
        have kept := (List.mem_insertionSort _).mp member
        exact of_decide_eq_true (List.mem_filter.mp kept).2
      unfold byRank at ih lower ⊢
      rcases Nat.lt_trichotomy (rank value) bound with below | same | above
      · have within : rank value < bound + 1 := by omega
        simp only [List.filter_cons, within, below, below.ne, decide_true, decide_false,
          Bool.false_eq_true, ↓reduceIte, List.insertionSort_cons, ih]
        apply orderedInsert_append
        intro other member
        rw [top other member]
        exact below.le
      · subst same
        simp only [List.filter_cons, Nat.lt_add_one, Nat.lt_irrefl, decide_true, decide_false,
          Bool.false_eq_true, ↓reduceIte, List.insertionSort_cons, ih, List.reverse_cons,
          List.append_assoc, List.singleton_append]
        rw [orderedInsert_append, orderedInsert_of_lower _ _ lower]
        exact fun other member => (top other member).ge
      · have beyond : ¬ rank value < bound + 1 := by omega
        have notBelow : ¬ rank value < bound := by omega
        simp only [List.filter_cons, beyond, notBelow, above.ne', decide_false, Bool.false_eq_true,
          ↓reduceIte, ih]

/-! ## The operations -/

def new (span : ℕ) : Ledger α := ⟨span, 0, [], []⟩

/-- Keep an entry for `ttl` ticks; it is dropped when these are not fewer than the span. -/
def put (ttl : ℕ) (value : α) (ledger : Ledger α) : Ledger α :=
  if ttl < ledger.span then
    { ledger with entries := (ledger.now + ttl, value) :: ledger.entries }
  else ledger

/-- The newest entry that is accepted. -/
def find (accepts : α → Bool) (ledger : Ledger α) : Option α :=
  (ledger.entries.find? fun entry => accepts entry.2).map Prod.snd

/-- Change the first of the entries that is accepted. -/
def changeFirst (accepts : α → Bool) (change : α → α) : List (ℕ × α) → List (ℕ × α)
  | [] => []
  | entry :: rest =>
      if accepts entry.2 then (entry.1, change entry.2) :: rest
      else entry :: changeFirst accepts change rest

theorem changeFirst_append {accepts : α → Bool} (change : α → α) {front : List (ℕ × α)}
    {entry : ℕ × α} (back : List (ℕ × α)) (rejected : ∀ other ∈ front, accepts other.2 = false)
    (accepted : accepts entry.2 = true) : changeFirst accepts change (front ++ entry :: back) =
      front ++ (entry.1, change entry.2) :: back := by
  induction front with
  | nil => exact if_pos accepted
  | cons other front ih =>
      have passed : ¬ accepts other.2 = true := by
        rw [rejected other List.mem_cons_self]
        exact Bool.false_ne_true
      rw [List.cons_append, changeFirst, if_neg passed, List.cons_append,
        ih fun other member => rejected other (List.mem_cons_of_mem _ member)]

/-- Change the newest entry that is accepted. -/
def touch (accepts : α → Bool) (change : α → α) (ledger : Ledger α) : Ledger α :=
  { ledger with entries := changeFirst accepts change ledger.entries }

/-- Let some ticks pass. -/
def prog (ticks : ℕ) (ledger : Ledger α) : Ledger α :=
  let now := ledger.now + ticks
  let due := ledger.entries.filter (·.1 < now)
  { ledger with
    now := now
    entries := ledger.entries.filter (now ≤ ·.1)
    past := (byRank Prod.fst due).map Prod.snd ++ ledger.past }

/-- Let all entries leave, from the last turn of the span to its first. -/
def purge (ledger : Ledger α) : Ledger α :=
  { ledger with
    entries := []
    past := (byRank (·.1 % ledger.span) ledger.entries).map Prod.snd ++ ledger.past }

/-- What has left has been taken. -/
def taken (ledger : Ledger α) : Ledger α := { ledger with past := [] }

theorem taken_put (ttl : ℕ) (value : α) (ledger : Ledger α) :
    (ledger.put ttl value).taken = ledger.taken.put ttl value :=
  apply_ite taken ..

end Ledger
