import Devourer.LRUHash.Pool
import Mathlib.Algebra.Order.Ring.Int
import Mathlib.Order.Basic

/-! # Pools whose objects live equally long

A client who puts every object once, when it is built and always for the same time, and
who progresses the table by the seconds that pass, holds exactly the objects that are
young enough (`Pool.Ages`). The second in which an object was built is no part of the
table; `born` says it, and a clock `now` the present one.
-/

namespace Devourer

namespace Pool

variable {α : Type} {ttl : ℕ} {born : ℕ → ℤ} {now : ℤ} {pool : Pool α}

/-- Every live object has the rest of its time left, and every object that has time left
is live. -/
structure Ages (ttl : ℕ) (born : ℕ → ℤ) (now : ℤ) (pool : Pool α) : Prop where
  due : ∀ id slot, pool.Live id slot →
    (pool.deadline slot : ℤ) = pool.table.currTick + (born id + ttl - now)
  live : ∀ id < pool.built, now ≤ born id + ttl → ∃ slot, pool.Live id slot

theorem Ages.of_empty (wf : pool.WF) (empty : pool.built = 0) (now : ℤ) :
    pool.Ages ttl born now where
  due id _ live := (Nat.not_lt_zero id (empty ▸ wf.live_lt live)).elim
  live id known := (Nat.not_lt_zero id (empty ▸ known)).elim

/-- **The objects that are young enough are live**, and no others. -/
theorem Ages.live_iff (ages : pool.Ages ttl born now) {id : ℕ} (known : id < pool.built) :
    (∃ slot, pool.Live id slot) ↔ now ≤ born id + ttl := by
  constructor
  · rintro ⟨slot, live⟩
    have due := ages.due id slot live
    have later : pool.table.currTick ≤ pool.deadline slot := Nat.le_add_right _ _
    omega
  · exact ages.live id known

/-- The births of the objects that were built are all that counts. -/
theorem Ages.congr (ages : pool.Ages ttl born now) (wf : pool.WF) {born' : ℕ → ℤ}
    (same : ∀ id < pool.built, born' id = born id) : pool.Ages ttl born' now where
  due id slot live := by
    rw [same id (wf.live_lt live)]
    exact ages.due id slot live
  live id known young := ages.live id known (same id known ▸ young)

/-- An object put when it is built has all its time left. -/
theorem Ages.add (ages : pool.Ages ttl born now) (here : born pool.built = now)
    (short : ttl < pool.table.timeslotSize) (bounded : pool.table.currTick + ttl < 2 ^ 64)
    (object : α) : ((pool.build object).put ttl pool.built).2.Ages ttl born now := by
  have deadline : ∀ slot, ((pool.build object).put ttl pool.built).2.deadline slot =
      pool.deadline slot := by
    intro slot
    unfold Pool.deadline
    rw [put_currTick, put_timeslotSize, build_table]
  refine ⟨fun id slot live => ?_, fun id known young => ?_⟩
  · rw [deadline, put_currTick, build_table]
    rcases (live_build_put_iff short id slot).mp live with live | ⟨rfl, rfl⟩
    · exact ages.due id slot live
    · rw [here, deadline_slotFor short bounded]
      omega
  · rcases Nat.lt_succ_iff_lt_or_eq.mp known with earlier | rfl
    · obtain ⟨slot, live⟩ := ages.live id earlier young
      exact ⟨slot, (live_build_put_iff short id slot).mpr (.inl live)⟩
    · exact ⟨_, (live_build_put_iff short _ _).mpr (.inr ⟨rfl, rfl⟩)⟩

theorem Ages.modify (ages : pool.Ages ttl born now) (id : ℕ) (change : α → α) :
    (pool.modify id change).Ages ttl born now := ⟨ages.due, ages.live⟩

/-- Time passes with the ticks of progress. -/
theorem Ages.prog (ages : pool.Ages ttl born now) (wf : pool.WF) {ticks : ℕ}
    (bounded : pool.table.currTick + ticks < 2 ^ 64) :
    (pool.prog ticks).Ages ttl born (now + ticks) := by
  refine ⟨fun id slot live => ?_, fun id known young => ?_⟩
  · obtain ⟨live, unvisited⟩ := (live_prog_iff ticks id slot).mp live
    have inside := wf.slot_lt live
    rw [visits_iff inside bounded, Nat.not_lt] at unvisited
    rw [deadline_prog inside bounded unvisited, prog_currTick, sizeT_of_lt bounded,
      ages.due id slot live]
    omega
  · obtain ⟨slot, live⟩ := ages.live id known (by omega)
    refine ⟨slot, (live_prog_iff ticks id slot).mpr ⟨live, ?_⟩⟩
    have due := ages.due id slot live
    rw [visits_iff (wf.slot_lt live) bounded, Nat.not_lt]
    omega

end Pool

end Devourer
