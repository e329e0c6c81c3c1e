import Mathlib.Data.List.Nodup
import Mathlib.Logic.Relation

/-! # Chains threaded through pointer fields

An intrusive list has no cells of its own: it is a path that a pointer field
traces through the objects it holds. `Linked.Chain` says that following one
field from a root visits exactly the listed cells and then ends, and
`Linked.Back` that a second field points back along such a path. A path that
ends visits no cell twice (`Linked.Chain.nodup`), so finiteness and acyclicity
of the represented lists need no assumption of their own. The rules below say
how the paths move when a cell is pushed, popped, inserted or unlinked, and that
every path avoiding the written cells is left alone.
-/

namespace Linked

open Function

variable {α : Type*}

/-- Following `field` from `root` visits exactly `cells`, in order, and ends. -/
def Chain (field : α → Option α) : α → List α → Prop
  | root, [] => field root = none
  | root, cell :: rest => field root = some cell ∧ Chain field cell rest

/-- Every cell on the path points back through `field` to the one before it. -/
def Back (field : α → Option α) : α → List α → Prop
  | _, [] => True
  | root, cell :: rest => field cell = some root ∧ Back field cell rest

variable {field next prev : α → Option α} {root cell : α} {cells front rest : List α}

/-- The cells on a path are determined by the field. -/
theorem Chain.unique (chain : Chain field root cells) (other : Chain field root rest) :
    cells = rest := by
  induction cells generalizing root rest with
  | nil =>
      cases rest with
      | nil => rfl
      | cons second rest => cases chain.symm.trans other.1
  | cons first cells ih =>
      cases rest with
      | nil => cases other.symm.trans chain.1
      | cons second rest =>
          obtain rfl : first = second := Option.some.inj (chain.1.symm.trans other.1)
          rw [ih chain.2 other.2]

/-- What follows a cell of the path is a path from that cell. -/
theorem Chain.suffix (chain : Chain field root (front ++ cell :: rest)) :
    Chain field cell rest := by
  induction front generalizing root with
  | nil => exact chain.2
  | cons first front ih => exact ih chain.2

/-- **A path that ends visits no cell twice.** A repeated cell would start two
paths of different lengths. -/
theorem Chain.nodup (chain : Chain field root cells) : (root :: cells).Nodup := by
  induction cells generalizing root with
  | nil => exact List.nodup_singleton root
  | cons first cells ih =>
      refine List.nodup_cons.mpr ⟨fun again => ?_, ih chain.2⟩
      obtain ⟨front, rest, split⟩ := List.append_of_mem again
      have later : Chain field root (front ++ root :: rest) := split ▸ chain
      have same := congrArg List.length (later.suffix.unique later)
      simp only [List.length_append, List.length_cons] at same
      omega

/-- A path only depends on the field at the cells it passes through. -/
theorem Chain.frame {other : α → Option α} (chain : Chain field root cells)
    (same : ∀ a ∈ root :: cells, other a = field a) : Chain other root cells := by
  induction cells generalizing root with
  | nil => exact (same root (List.mem_singleton_self root)).trans chain
  | cons first cells ih =>
      exact ⟨(same root List.mem_cons_self).trans chain.1,
        ih chain.2 fun a member => same a (List.mem_cons_of_mem _ member)⟩

theorem Back.frame {other : α → Option α} (back : Back field root cells)
    (same : ∀ a ∈ cells, other a = field a) : Back other root cells := by
  induction cells generalizing root with
  | nil => trivial
  | cons first cells ih =>
      exact ⟨(same first List.mem_cons_self).trans back.1,
        ih back.2 fun a member => same a (List.mem_cons_of_mem _ member)⟩

/-- A step along the field from the path stays on the path. -/
theorem Chain.step_mem (chain : Chain field root cells) {a b : α} (member : a ∈ root :: cells)
    (step : field a = some b) : b ∈ cells := by
  induction cells generalizing root with
  | nil =>
      rw [List.mem_singleton.mp member, chain] at step
      cases step
  | cons first cells ih =>
      rcases List.mem_cons.mp member with rfl | member
      · cases chain.1.symm.trans step
        exact List.mem_cons_self
      · exact List.mem_cons_of_mem _ (ih chain.2 member)

/-- A step back from the path stays on the path or returns to its root. -/
theorem Back.step_mem (back : Back field root cells) {a b : α} (member : a ∈ cells)
    (step : field a = some b) : b ∈ root :: cells := by
  induction cells generalizing root with
  | nil => cases member
  | cons first cells ih =>
      rcases List.mem_cons.mp member with rfl | member
      · cases back.1.symm.trans step
        exact List.mem_cons_self
      · exact List.mem_cons_of_mem _ (ih back.2 member)

/-- The cell before a given cell of the path is the one its back pointer names. -/
theorem Back.before (back : Back field root (front ++ cell :: rest)) :
    ∃ a ∈ root :: front, field cell = some a := by
  induction front generalizing root with
  | nil => exact ⟨root, List.mem_singleton_self root, back.1⟩
  | cons first front ih =>
      obtain ⟨a, member, points⟩ := ih back.2
      exact ⟨a, List.mem_cons_of_mem _ member, points⟩

variable [DecidableEq α]

/-- Link a cell right behind the root. -/
def push (field : α → Option α) (root cell : α) : α → Option α :=
  update (update field cell (field root)) root (some cell)

/-- Take the first cell off the path, leaving that cell's own field as it is. -/
def pop (field : α → Option α) (root : α) : α → Option α :=
  match field root with
  | some cell => update field root (field cell)
  | none => field

/-- The back pointers after `push`. -/
def pushBack (next prev : α → Option α) (root cell : α) : α → Option α :=
  match next root with
  | some following => update (update prev cell (some root)) following (some cell)
  | none => update prev cell (some root)

/-- The forward pointers after a cell is taken out through its back pointer. -/
def unlink (next prev : α → Option α) (cell : α) : α → Option α :=
  match prev cell with
  | some before => update (update next before (next cell)) cell none
  | none => update next cell none

theorem Chain.push (chain : Chain field root cells) (fresh : cell ∉ root :: cells) :
    Chain (push field root cell) root (cell :: cells) := by
  obtain ⟨notRoot, notCells⟩ := not_or.mp (mt List.mem_cons.mpr fresh)
  have entry : Linked.push field root cell cell = field root := by
    rw [Linked.push, update_of_ne notRoot, update_self]
  refine ⟨update_self .., ?_⟩
  cases cells with
  | nil => exact entry.trans chain
  | cons first cells =>
      refine ⟨entry.trans chain.1, chain.2.frame fun a member => ?_⟩
      have offRoot : a ≠ root := by
        rintro rfl
        exact (List.nodup_cons.mp chain.nodup).1 member
      have offCell : a ≠ cell := by
        rintro rfl
        exact notCells member
      rw [Linked.push, update_of_ne offRoot, update_of_ne offCell]

theorem Chain.pop (chain : Chain field root (cell :: cells)) :
    Chain (pop field root) root cells := by
  have popped : Linked.pop field root = update field root (field cell) := by
    rw [Linked.pop, chain.1]
  rw [popped]
  have first : update field root (field cell) root = field cell := update_self ..
  cases cells with
  | nil => exact first.trans chain.2
  | cons second cells =>
      refine ⟨first.trans chain.2.1, chain.2.2.frame fun a member => update_of_ne ?_ _ _⟩
      rintro rfl
      exact (List.nodup_cons.mp chain.nodup).1 (List.mem_cons_of_mem _ member)

theorem push_of_ne {a : α} (offRoot : a ≠ root) (offCell : a ≠ cell) :
    push field root cell a = field a := by
  rw [push, update_of_ne offRoot, update_of_ne offCell]

theorem pop_of_ne {a : α} (offRoot : a ≠ root) : pop field root a = field a := by
  cases points : field root with
  | none => simp only [pop, points]
  | some cell => simp only [pop, points, update_of_ne offRoot]

/-- Pushing behind one root leaves the paths that avoid it alone. -/
theorem Chain.push_other {other : α} (chain : Chain field other cells)
    (offRoot : root ∉ other :: cells) (offCell : cell ∉ other :: cells) :
    Chain (Linked.push field root cell) other cells := by
  apply chain.frame
  intro a member
  apply push_of_ne
  · rintro rfl
    exact offRoot member
  · rintro rfl
    exact offCell member

theorem Chain.pop_other {other : α} (chain : Chain field other cells)
    (offRoot : root ∉ other :: cells) : Chain (Linked.pop field root) other cells := by
  apply chain.frame
  intro a member
  apply pop_of_ne
  rintro rfl
  exact offRoot member

/-- Back pointers off the root's path and the new cell are left alone. -/
theorem pushBack_of_ne {a : α} (offCell : a ≠ cell) (off : next root ≠ some a) :
    pushBack next prev root cell a = prev a := by
  cases points : next root with
  | none => simp only [pushBack, points, update_of_ne offCell]
  | some following =>
      have offFollowing : a ≠ following := fun same => off (same ▸ points)
      simp only [pushBack, points, update_of_ne offFollowing, update_of_ne offCell]

theorem Back.pushBack (back : Back prev root cells) (chain : Chain next root cells)
    (fresh : cell ∉ root :: cells) : Back (pushBack next prev root cell) root (cell :: cells) := by
  obtain ⟨-, notCells⟩ := not_or.mp (mt List.mem_cons.mpr fresh)
  cases cells with
  | nil =>
      refine ⟨?_, trivial⟩
      simp only [Linked.pushBack, show next root = none from chain, update_self]
  | cons first cells =>
      have offFirst : cell ≠ first := fun same => notCells (same ▸ List.mem_cons_self)
      refine ⟨?_, ?_, back.2.frame fun a member => pushBack_of_ne ?_ ?_⟩
      · simp only [Linked.pushBack, chain.1, update_of_ne offFirst, update_self]
      · simp only [Linked.pushBack, chain.1, update_self]
      · rintro rfl
        exact notCells (List.mem_cons_of_mem _ member)
      · intro points
        obtain rfl : first = a := Option.some.inj (chain.1.symm.trans points)
        exact (List.nodup_cons.mp chain.2.nodup).1 member

/-- Forward pointers other than the cell's and its predecessor's are kept. -/
theorem unlink_of_ne {a : α} (offCell : a ≠ cell) (off : prev cell ≠ some a) :
    unlink next prev cell a = next a := by
  cases points : prev cell with
  | none => simp only [unlink, points, update_of_ne offCell]
  | some before =>
      have offBefore : a ≠ before := fun same => off (same ▸ points)
      simp only [unlink, points, update_of_ne offCell, update_of_ne offBefore]

theorem unlink_before {a : α} (points : prev cell = some a) (offCell : a ≠ cell) :
    unlink next prev cell a = next cell := by
  simp only [unlink, points]
  rw [update_of_ne offCell, update_self]

@[simp] theorem unlink_self : unlink next prev cell cell = none := by
  cases points : prev cell <;> simp only [unlink, points, update_self]

/-- **Unlinking takes exactly one cell out of its path.** The forward pointers
skip the cell. -/
theorem Chain.unlink (chain : Chain next root (front ++ cell :: rest))
    (back : Back prev root (front ++ cell :: rest)) :
    Chain (unlink next prev cell) root (front ++ rest) := by
  induction front generalizing root with
  | nil =>
      have distinct := chain.nodup
      simp only [List.nil_append, List.nodup_cons, List.mem_cons, not_or] at distinct
      have entry : Linked.unlink next prev cell root = next cell :=
        unlink_before back.1 distinct.1.1
      cases rest with
      | nil => exact entry.trans chain.2
      | cons first rest =>
          refine ⟨entry.trans chain.2.1, chain.2.2.frame fun a member => unlink_of_ne ?_ ?_⟩
          · rintro rfl
            exact distinct.2.1 member
          · intro points
            obtain rfl : root = a := Option.some.inj (back.1.symm.trans points)
            exact distinct.1.2 member
  | cons first front ih =>
      refine ⟨(unlink_of_ne ?_ ?_).trans chain.1, ih chain.2 back.2⟩
      · rintro rfl
        exact (List.nodup_cons.mp chain.nodup).1 (by simp)
      · obtain ⟨before, member, points⟩ := back.2.before
        intro same
        obtain rfl : before = root := Option.some.inj (points.symm.trans same)
        refine (List.nodup_cons.mp chain.nodup).1 (List.mem_append_left (cell :: rest) ?_)
        exact member

/-- The back pointers after unlinking mirror the forward ones: the roles of the
two fields are exchanged. -/
theorem Back.unlink (chain : Chain next root (front ++ cell :: rest))
    (back : Back prev root (front ++ cell :: rest)) :
    Back (unlink prev next cell) root (front ++ rest) := by
  induction front generalizing root with
  | nil =>
      cases rest with
      | nil => trivial
      | cons first rest =>
          have distinct := chain.2.nodup
          simp only [List.nodup_cons, List.mem_cons, not_or] at distinct
          refine ⟨(unlink_before chain.2.1 (Ne.symm distinct.1.1)).trans back.1,
            back.2.2.frame fun a member => unlink_of_ne ?_ ?_⟩
          · rintro rfl
            exact distinct.1.2 member
          · intro points
            obtain rfl : first = a := Option.some.inj (chain.2.1.symm.trans points)
            exact distinct.2.1 member
  | cons first front ih =>
      refine ⟨(unlink_of_ne ?_ ?_).trans back.1, ih chain.2 back.2⟩
      · rintro rfl
        exact (List.nodup_cons.mp chain.2.nodup).1 (by simp)
      · intro points
        have member := chain.suffix.step_mem List.mem_cons_self points
        exact (List.nodup_cons.mp chain.2.nodup).1 (by simp [member])

/-- The two fields away from the path that held the cell are untouched. -/
theorem unlink_frame (chain : Chain next root (front ++ cell :: rest))
    (back : Back prev root (front ++ cell :: rest)) {a : α}
    (off : a ∉ root :: (front ++ cell :: rest)) :
    unlink next prev cell a = next a ∧ unlink prev next cell a = prev a := by
  have offCell : a ≠ cell := by
    rintro rfl
    exact off (by simp)
  refine ⟨unlink_of_ne offCell fun points => ?_, unlink_of_ne offCell fun points => ?_⟩
  · obtain ⟨before, member, named⟩ := back.before
    obtain rfl : before = a := Option.some.inj (named.symm.trans points)
    rw [← List.cons_append] at off
    exact off (List.mem_append_left (cell :: rest) member)
  · have member := chain.suffix.step_mem List.mem_cons_self points
    exact off (by simp [member])

end Linked
