import Devourer.Foundation.Simulation
import Devourer.LRUHash.Lease
import Devourer.Modules.Flow.Isolation

/-! # The flow module without its table

What `ModFlow` is for can be said without hash values, buckets, timeslots and lists of
expired nodes: a `Session` is a clock and the open flow of one key with the last second it
is kept for. For positive timestamps, in whatever order, the module reports for every key
what the session of the key reports (`reports_eq_session`).
-/

namespace Devourer

namespace ModFlow

/-- The conversation of one key. -/
structure Session where
  clock : ℤ
  flow : Option (ℤ × Flow)

namespace Session

def new : Session := ⟨0, none⟩

/-- A flow that had packets since it was last looked at is kept on for as many seconds as
there were in between, unless these are more than the table can wait; any other is logged. -/
def expire (tvSec : ℤ) (flow : Flow) : Exec Message Session :=
  if 0 < flow.remain then
    pure ⟨tvSec,
      if flow.remain < 3600 then some (tvSec + flow.remain, flow.refresh tvSec) else none⟩
  else do
    let msg ← Exec.ofOption flow.buildMessage
    Exec.emit msg
    pure ⟨tvSec, none⟩

/-- Move the clock forwards. -/
def tick (tvSec : ℤ) (this : Session) : Exec Message Session :=
  match this.flow with
  | none => pure { this with clock := max this.clock tvSec }
  | some (until_, flow) =>
      if until_ < tvSec then expire tvSec flow
      else pure { this with clock := max this.clock tvSec }

/-- Count a packet, in a new flow if there is none. -/
def packet (p : Property) (this : Session) : Exec Message Session :=
  match this.flow with
  | some (until_, flow) => pure { this with flow := some (until_, flow.update p) }
  | none => do
      let flow := Flow.new p "" ""
      Exec.emit (newMessage p flow "" "")
      pure { this with flow := some (this.clock + 600, flow.update p) }

def handle : Option Property → Session → Exec Message Session
  | none, this => pure this
  | some p, this => this.packet p

def recv (glimpse : Glimpse) (this : Session) : Exec Message Session :=
  this.tick glimpse.tvSec >>= handle glimpse.own

/-- A sequence of calls. -/
def run : Session → List Glimpse → Exec Message Session :=
  Exec.run fun this glimpse => this.recv glimpse

end Session

/-- A glimpse of a packet with a positive timestamp. -/
structure Glimpse.Legal (glimpse : Glimpse) : Prop where
  positive : 0 < glimpse.tvSec
  upper : glimpse.tvSec < 2 ^ 63
  own : ∀ p ∈ glimpse.own, p.tvSec = glimpse.tvSec

/-- The session runs with the lane: the timeslot of the flow stands for its last second. -/
structure Lane.Follows (lane : Lane) (session : Session) : Prop where
  clock : lane.lastTs = session.clock
  nonneg : 0 ≤ lane.lastTs
  upper : lane.lastTs < 2 ^ 63
  currTick : (lane.currTick : ℤ) ≤ lane.lastTs
  idle : lane.lastTs = 0 → lane.held = none
  lease : Lease 3600 lane.currTick lane.lastTs lane.held session.flow
  refreshed : ∀ entry ∈ lane.held, 0 ≤ entry.2.refreshedAt
  updated : ∀ entry ∈ lane.held, entry.2.updatedAt < 2 ^ 63

/-- The same after the first call, which sets the clock. -/
structure Lane.Runs (lane : Lane) (session : Session) : Prop extends lane.Follows session where
  started : lane.lastTs ≠ 0

variable {lane : Lane} {session : Session} {glimpse : Glimpse} {p : Property} {tvSec : ℤ}
  {slot : ℕ} {until_ : ℤ} {flow : Flow}

theorem Lane.Follows.new : Lane.new.Follows Session.new where
  clock := rfl
  nonneg := Int.le_refl 0
  upper := show (0 : ℤ) < 2 ^ 63 by decide
  currTick := Int.le_refl 0
  idle _ := rfl
  lease := .none
  refreshed := nofun
  updated := nofun

namespace Session

theorem tick_of_waiting (waiting : ∀ entry ∈ session.flow, tvSec ≤ entry.1) :
    session.tick tvSec = pure { session with clock := max session.clock tvSec } := by
  unfold tick
  cases held : session.flow with
  | none => rfl
  | some entry => exact if_neg (Int.not_lt.mpr (waiting entry held))

theorem tick_of_overdue (held : session.flow = some (until_, flow)) (overdue : until_ < tvSec) :
    session.tick tvSec = expire tvSec flow := by
  unfold tick
  rw [held]
  exact if_pos overdue

end Session

/-! ## The tick -/

namespace Lane.Follows

/-- The progress made for a later second. -/
theorem ticks (follows : lane.Follows session) (upper : tvSec < 2 ^ 63)
    (later : lane.lastTs < tvSec) : (sizeOfTime (tvSec - lane.lastTs) : ℤ) = tvSec - lane.lastTs ∧
      lane.currTick + sizeOfTime (tvSec - lane.lastTs) < 2 ^ 64 := by
  have nonneg := follows.nonneg
  have tick := follows.currTick
  rw [sizeOfTime_of_nonneg (by omega) (by omega)]
  omega

/-- What the lane has due is the flow that is past its last second. -/
theorem due_iff (follows : lane.Follows session) (upper : tvSec < 2 ^ 63) :
    lane.due tvSec = some flow ↔ ∃ until_, session.flow = some (until_, flow) ∧ until_ < tvSec := by
  have lease := follows.lease
  have idle := follows.idle
  unfold Lane.due
  by_cases progress : lane.lastTs ≠ 0 ∧ lane.lastTs < tvSec
  · obtain ⟨ticks, bounded⟩ := follows.ticks upper progress.2
    rw [if_pos progress]
    cases held : lane.held with
    | none =>
        rw [held] at lease
        rw [lease.of_none]
        simp
    | some entry =>
        obtain ⟨slot, flow'⟩ := entry
        rw [held] at lease
        obtain ⟨until_, same, -, -⟩ := lease.of_some
        rw [same] at lease ⊢
        have visits := lease.visits_iff bounded
        rw [ticks, show lane.lastTs + (tvSec - lane.lastTs) = tvSec by omega] at visits
        have visited : Table.Visits lane.slotAt 0 (sizeOfTime (tvSec - lane.lastTs)) slot ↔
            until_ < tvSec := visits
        by_cases overdue : until_ < tvSec <;> simp [visited, overdue]
  · rw [if_neg progress]
    refine iff_of_false nofun ?_
    rintro ⟨until_, same, overdue⟩
    rw [same] at lease
    obtain ⟨slot, held, waiting⟩ := lease.of_held
    have started : lane.lastTs ≠ 0 := fun zero => by
      rw [idle zero] at held
      cases held
    omega

theorem moved_lastTs (follows : lane.Follows session) (positive : 0 < tvSec) :
    (lane.moved tvSec).lastTs = max session.clock tvSec := by
  have nonneg := follows.nonneg
  rw [← follows.clock]
  unfold Lane.moved
  dsimp only
  split <;> omega

theorem moved_currTick (follows : lane.Follows session) (upper : tvSec < 2 ^ 63) :
    ((lane.moved tvSec).currTick : ℤ) ≤ max session.clock tvSec := by
  have behind := follows.currTick
  rw [← follows.clock]
  unfold Lane.moved
  dsimp only
  split
  · rename_i progress
    obtain ⟨ticks, bounded⟩ := follows.ticks upper progress.2
    rw [sizeT_of_lt bounded]
    omega
  · omega

/-- The lane with its clock moved, when what it holds is leased from there. -/
theorem moved (follows : lane.Follows session) (positive : 0 < tvSec) (upper : tvSec < 2 ^ 63)
    {held : Option (ℕ × Flow)} {flow : Option (ℤ × Flow)}
    (lease : Lease 3600 (lane.moved tvSec).currTick (max session.clock tvSec) held flow)
    (refreshed : ∀ entry ∈ held, 0 ≤ entry.2.refreshedAt)
    (updated : ∀ entry ∈ held, entry.2.updatedAt < 2 ^ 63) :
    Lane.Runs { lane.moved tvSec with held := held } ⟨max session.clock tvSec, flow⟩ := by
  have nonneg := follows.nonneg
  have below := follows.upper
  have clock := follows.moved_lastTs positive
  have same : (lane.moved tvSec).lastTs = max lane.lastTs tvSec := by rw [clock, follows.clock]
  exact {
    clock := clock
    nonneg := by rw [same]; omega
    upper := by rw [same]; omega
    currTick := clock ▸ follows.moved_currTick upper
    idle := fun zero => by rw [same] at zero; omega
    started := by rw [same]; omega
    lease := clock ▸ lease
    refreshed := refreshed
    updated := updated }

/-- Nothing is due: both move their clocks. -/
theorem tick_waiting (follows : lane.Follows session) (positive : 0 < tvSec)
    (upper : tvSec < 2 ^ 63) (waiting : ∀ entry ∈ session.flow, tvSec ≤ entry.1) :
    (lane.moved tvSec).Runs { session with clock := max session.clock tvSec } := by
  apply follows.moved positive upper _ follows.refreshed follows.updated
  have lease := follows.lease
  by_cases progress : lane.lastTs ≠ 0 ∧ lane.lastTs < tvSec
  · obtain ⟨ticks, bounded⟩ := follows.ticks upper progress.2
    have later : lane.lastTs + (sizeOfTime (tvSec - lane.lastTs) : ℤ) = tvSec := by omega
    have moved := lease.advance bounded (by rwa [later])
    rw [later] at moved
    unfold Lane.moved
    rw [← follows.clock, if_pos progress, max_eq_right progress.2.le]
    exact moved
  · unfold Lane.moved
    rw [if_neg progress, ← follows.clock]
    by_cases started : lane.lastTs = 0
    · have none := follows.idle started
      rw [none] at lease ⊢
      rw [lease.of_none]
      exact .none
    · rwa [max_eq_left (by omega)]

/-- A flow that expires is put again or logged by both. -/
theorem expire (follows : lane.Follows session) (positive : 0 < tvSec) (upper : tvSec < 2 ^ 63)
    (held : lane.held = some (slot, flow)) (later : lane.lastTs < tvSec) :
    Exec.Matches Lane.Runs ((lane.moved tvSec).expire tvSec flow)
      (Session.expire tvSec flow) := by
  have refreshed : 0 ≤ flow.refreshedAt := follows.refreshed _ held
  have updated : flow.updatedAt < 2 ^ 63 := follows.updated _ held
  have now : max session.clock tvSec = tvSec := max_eq_right (follows.clock ▸ later.le)
  have moved : ∀ held flow, Lease 3600 (lane.moved tvSec).currTick tvSec held flow →
      (∀ entry ∈ held, 0 ≤ entry.2.refreshedAt) → (∀ entry ∈ held, entry.2.updatedAt < 2 ^ 63) →
      Lane.Runs { lane.moved tvSec with held := held } ⟨tvSec, flow⟩ := by
    intro held flow lease refreshed updated
    have moved := follows.moved positive upper (by rwa [now]) refreshed updated
    rwa [now] at moved
  unfold Lane.expire Session.expire
  by_cases remains : 0 < flow.remain
  · have ttl : (sizeOfTime flow.remain : ℤ) = flow.remain := by
      unfold Flow.remain at remains ⊢
      rw [sizeOfTime_of_nonneg remains.le (by split <;> omega)]
      omega
    have bound := follows.moved_currTick upper
    simp only [remains, ↓reduceIte]
    apply Exec.Matches.pure
    by_cases short : flow.remain < 3600
    · have short' : sizeOfTime flow.remain < 3600 := by omega
      rw [if_pos short, if_pos short']
      have lease : Lease 3600 (lane.moved tvSec).currTick tvSec
          (some ((lane.moved tvSec).slotFor (sizeOfTime flow.remain), flow.refresh tvSec)) _ :=
        .put short' (by omega) (flow.refresh tvSec)
      rw [ttl] at lease
      apply moved _ _ lease
      · rintro _ ⟨⟩
        exact positive.le
      · rintro _ ⟨⟩
        exact updated
    · have long : ¬ sizeOfTime flow.remain < 3600 := by omega
      rw [if_neg short, if_neg long]
      exact moved _ _ .none nofun nofun
  · simp only [remains, ↓reduceIte]
    cases built : flow.buildMessage with
    | none => exact .abort
    | some msg =>
        simp only [Exec.ofOption_some_bind]
        apply Exec.Matches.emit_bind
        exact .pure (moved _ _ .none nofun nofun)

/-- **The tick.** -/
theorem tick (follows : lane.Follows session) (positive : 0 < tvSec) (upper : tvSec < 2 ^ 63) :
    Exec.Matches Lane.Runs (lane.tick tvSec) (session.tick tvSec) := by
  unfold Lane.tick
  cases due : lane.due tvSec with
  | none =>
      have waiting : ∀ entry ∈ session.flow, tvSec ≤ entry.1 := by
        intro entry held
        by_contra overdue
        have dueNow := (follows.due_iff upper).mpr ⟨entry.1, held, by omega⟩
        cases due.symm.trans dueNow
      rw [Session.tick_of_waiting waiting]
      exact .pure (follows.tick_waiting positive upper waiting)
  | some flow =>
      obtain ⟨until_, held, overdue⟩ := (follows.due_iff upper).mp due
      have lease := follows.lease
      rw [held] at lease
      obtain ⟨slot, filed, waiting⟩ := lease.of_held
      rw [Session.tick_of_overdue held overdue]
      exact follows.expire positive upper filed (waiting.trans_lt overdue)

end Lane.Follows

/-! ## The packet -/

namespace Lane.Runs

/-- Another flow, under a lease of the present. -/
theorem holding (runs : lane.Runs session) {held : Option (ℕ × Flow)} {flow : Option (ℤ × Flow)}
    (lease : Lease 3600 lane.currTick lane.lastTs held flow)
    (refreshed : ∀ entry ∈ held, 0 ≤ entry.2.refreshedAt)
    (updated : ∀ entry ∈ held, entry.2.updatedAt < 2 ^ 63) :
    Lane.Follows { lane with held := held } { session with flow := flow } where
  clock := runs.clock
  nonneg := runs.nonneg
  upper := runs.upper
  currTick := runs.currTick
  idle zero := (runs.started zero).elim
  lease := lease
  refreshed := refreshed
  updated := updated

theorem packet (runs : lane.Runs session) (positive : 0 < p.tvSec) :
    Exec.Matches Lane.Follows (lane.packet p) (session.packet p) := by
  have lease := runs.lease
  unfold Lane.packet Session.packet
  cases filed : lane.held with
  | some entry =>
      obtain ⟨slot, flow⟩ := entry
      rw [filed] at lease
      obtain ⟨until_, held, -, again⟩ := lease.of_some
      rw [held]
      apply Exec.Matches.pure
      apply runs.holding (again _)
      · rintro _ ⟨⟩
        rw [Flow.refreshedAt_update]
        exact runs.refreshed _ filed
      · rintro _ ⟨⟩
        rw [Flow.updatedAt_update]
        exact p.tvSec_upper
  | none =>
      rw [filed] at lease
      rw [lease.of_none]
      apply Exec.Matches.emit_bind
      apply Exec.Matches.pure
      have tick := runs.currTick
      have below := runs.upper
      have bounded : lane.currTick + 600 < 2 ^ 64 := by omega
      have lease : Lease 3600 lane.currTick lane.lastTs
          (some (lane.slotFor 600, (Flow.new p "" "").update p))
          (some (session.clock + 600, (Flow.new p "" "").update p)) := by
        rw [← runs.clock]
        exact .put (by decide) bounded _
      apply runs.holding lease
      · rintro _ ⟨⟩
        rw [Flow.refreshedAt_update]
        exact positive.le
      · rintro _ ⟨⟩
        rw [Flow.updatedAt_update]
        exact p.tvSec_upper

end Lane.Runs

/-- **One call.** -/
theorem Lane.Follows.recv (follows : lane.Follows session) (legal : glimpse.Legal) :
    Exec.Matches Lane.Follows (lane.recv glimpse) (session.recv glimpse) := by
  apply (follows.tick legal.positive legal.upper).bind
  intro lane session runs
  cases own : glimpse.own with
  | none => exact .pure runs.toFollows
  | some p =>
      have same := legal.own p own
      exact runs.packet (same ▸ legal.positive)

theorem glimpse_legal (evIpv4 evIpv6 : EvId) (key : FlowKey) {input : Input}
    (positive : 0 < input.p.tvSec) : (ModFlow.glimpse evIpv4 evIpv6 key input).Legal where
  positive := positive
  upper := input.p.tvSec_upper
  own p own := by
    obtain ⟨-, same⟩ := Option.ite_none_right_eq_some.mp own
    rw [← Option.some.inj same]
    rfl

/-! ## Runs -/

/-- A lane and a session report the same. -/
theorem lane_outputs_eq {glimpses : List Glimpse} (legal : ∀ seen ∈ glimpses, seen.Legal) :
    Exec.outputs (fun lane seen => Lane.recv seen lane) Lane.new glimpses =
      Exec.outputs (fun session seen => Session.recv seen session) Session.new glimpses := by
  apply Exec.Matches.outputs_eq _ Lane.Follows.new
  exact fun lane session follows seen member => follows.recv (legal seen member)

/-- The glimpses of packets with positive timestamps. -/
theorem glimpses_legal (evIpv4 evIpv6 : EvId) (key : FlowKey) {inputs : List Input}
    (positive : ∀ input ∈ inputs, 0 < input.p.tvSec) :
    ∀ seen ∈ inputs.map (ModFlow.glimpse evIpv4 evIpv6 key), seen.Legal := by
  intro seen member
  obtain ⟨input, called, rfl⟩ := List.mem_map.mp member
  exact glimpse_legal evIpv4 evIpv6 key (positive input called)

/-- The session of a key runs with the module. -/
def Plays (evIpv4 evIpv6 : EvId) (key : FlowKey) (this : ModFlow) (session : Session) : Prop :=
  ∃ lane, Shows evIpv4 evIpv6 key this lane ∧ lane.Follows session

/-- The flow that the module finds for the key is the flow of the session. -/
theorem Plays.get {evIpv4 evIpv6 : EvId} {key : FlowKey} {this : ModFlow}
    (plays : Plays evIpv4 evIpv6 key this session) :
    (this.flowTable.get Flow.virt key.hv key.label).map (fun id => (this.flow id).bare) =
      session.flow.map Prod.snd := by
  obtain ⟨lane, shows, follows⟩ := plays
  have lease := follows.lease
  cases found : this.flowTable.get Flow.virt key.hv key.label with
  | none =>
      have none := shows.held.eq_none fun id slot live => get_eq_none found live
      rw [none] at lease
      rw [lease.of_none]
      rfl
  | some id =>
      obtain ⟨⟨slot, live⟩, own⟩ := get_eq_some found
      rw [shows.held.eq_some shows.kept.wf live own] at lease
      obtain ⟨until_, held, -⟩ := lease.of_some
      rw [held]
      rfl

/-- **The session where the module is.** -/
theorem plays_run (evIpv4 evIpv6 : EvId) (key : FlowKey) {inputs : List Input}
    (positive : ∀ input ∈ inputs, 0 < input.p.tvSec)
    (directed : ∀ input ∈ inputs, keyOf input.p ≠ key → input.p.dir ≠ .nil) :
    Option.Rel (Plays evIpv4 evIpv6 key) ((ModFlow.new evIpv4 evIpv6).run inputs).result
      (Session.new.run (inputs.map (ModFlow.glimpse evIpv4 evIpv6 key))).result := by
  have paired : List.Forall₂ (fun input seen => (0 < input.p.tvSec ∧
      (keyOf input.p ≠ key → input.p.dir ≠ .nil)) ∧ seen = ModFlow.glimpse evIpv4 evIpv6 key input)
      inputs (inputs.map (ModFlow.glimpse evIpv4 evIpv6 key)) := by
    rw [List.forall₂_map_right_iff, List.forall₂_same]
    exact fun input member => ⟨⟨positive input member, directed input member⟩, rfl⟩
  apply Exec.run_rel (Plays evIpv4 evIpv6 key) _ _ paired
    ⟨Lane.new, Shows.new evIpv4 evIpv6 key, Lane.Follows.new⟩
  rintro this session input _ ⟨lane, shows, follows⟩ ⟨⟨positive, directed⟩, rfl⟩
  have sessions := follows.recv (glimpse_legal evIpv4 evIpv6 key positive)
  exact Exec.rel_comp (shows.recv directed).2 sessions.result

/-- **The module is its sessions.** For positive timestamps in any order, what a run of the
module reports for a key in each call is what the session of the key reports. -/
theorem reports_eq_session (evIpv4 evIpv6 : EvId) (key : FlowKey) (inputs : List Input)
    (positive : ∀ input ∈ inputs, 0 < input.p.tvSec)
    (directed : ∀ input ∈ inputs, keyOf input.p ≠ key → input.p.dir ≠ .nil) :
    ((ModFlow.new evIpv4 evIpv6).outputs inputs).map (List.filterMap (report key)) =
      Exec.outputs (fun session seen => Session.recv seen session) Session.new
        (inputs.map (ModFlow.glimpse evIpv4 evIpv6 key)) := by
  rw [reports_eq_lane evIpv4 evIpv6 key inputs directed]
  exact lane_outputs_eq (glimpses_legal evIpv4 evIpv6 key positive)

/-- A flow is opened, kept on and logged beside another. -/
theorem reports_eq_session_sample :
    ((ModFlow.new 4 6).outputs [.sample 5 1, .sample 3 2, .sample 900 2, .sample 1600 2]).map
        (List.filterMap (report ⟨1, []⟩)) =
      Exec.outputs (fun session seen => Session.recv seen session) Session.new
        ([Input.sample 5 1, .sample 3 2, .sample 900 2, .sample 1600 2].map
          (ModFlow.glimpse 4 6 ⟨1, []⟩)) :=
  reports_eq_session 4 6 ⟨1, []⟩ _ (by decide) (by decide)

end ModFlow

end Devourer
