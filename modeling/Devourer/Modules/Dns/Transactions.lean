import Devourer.Foundation.Simulation
import Devourer.Foundation.Yields
import Devourer.LRUHash.Lease
import Devourer.Modules.Dns.Expiry
import Devourer.Modules.Dns.Isolation

/-! # A transaction without the table

For timestamps that do not step backwards, what `ModDns` reports for a key depends on the
packets with this key alone: neither the other packets nor the seconds in between have to be
known. It is what an `Exchange` reports, a question with the last second in which it may be
answered, when it is run on the packets with the key (`reports_eq_exchange`).
-/

namespace Devourer

namespace ModDns

/-- The question of one key, with the last second in which it may be answered. -/
structure Exchange where
  asked : Option (ℤ × Query)

namespace Exchange

/-- What is left of the exchange at a second. -/
def still (tvSec : ℤ) (this : Exchange) : Option (ℤ × Query) :=
  this.asked.filter fun entry => tvSec ≤ entry.1

/-- A query packet asks again or starts a new exchange; a response is to the question asked
or to none. -/
def packet (p : Property) (this : Exchange) : Exec Message Exchange :=
  match this.still p.tvSec with
  | none =>
      if p.dnsQuery = 0 then pure ⟨some (p.tvSec + queryTtl, newQuery blank p)⟩
      else do
        Exec.emit (missMessage p)
        pure this
  | some (until_, query) =>
      if p.dnsQuery = 0 then pure ⟨some (until_, query.setLastTs p.ts)⟩
      else do
        let qName ← Exec.ofOption (query.qName 0)
        Exec.emit (successMessage p query qName)
        pure this

/-- A sequence of packets. -/
def run : Exchange → List Property → Exec Message Exchange :=
  Exec.run fun this p => this.packet p

end Exchange

/-- The exchange stands where the lane does. -/
structure Lane.Awaits (lane : Lane) (exchange : Exchange) : Prop where
  nonneg : 0 ≤ lane.lastTs
  upper : lane.lastTs < 2 ^ 63
  currTick : (lane.currTick : ℤ) ≤ lane.lastTs
  idle : lane.lastTs = 0 → lane.held = none
  lease : Lease 600 lane.currTick lane.lastTs lane.held (exchange.still lane.lastTs)

variable {lane : Lane} {exchange : Exchange} {p : Property} {tvSec : ℤ}

theorem Lane.Awaits.new : Lane.new.Awaits ⟨none⟩ where
  nonneg := Int.le_refl 0
  upper := show (0 : ℤ) < 2 ^ 63 by decide
  currTick := Int.le_refl 0
  idle _ := rfl
  lease := .none

theorem Exchange.still_still {earlier : ℤ} (forward : earlier ≤ tvSec) :
    (exchange.still earlier).filter (fun entry => tvSec ≤ entry.1) = exchange.still tvSec := by
  unfold Exchange.still
  cases exchange.asked with
  | none => rfl
  | some entry =>
      by_cases late : tvSec ≤ entry.1
      · simp [Option.filter_some, late, forward.trans late]
      · by_cases early : earlier ≤ entry.1 <;> simp [Option.filter_some, late, early]

namespace Lane.Awaits

/-- The lease after the clock has made progress. -/
theorem lease_tick (awaits : lane.Awaits exchange) (upper : tvSec < 2 ^ 63)
    (later : lane.lastTs < tvSec) :
    Lease 600 (sizeT (lane.currTick + sizeOfTime (tvSec - lane.lastTs))) tvSec
      (lane.held.filter fun entry =>
        ¬ Table.Visits lane.slotAt 0 (sizeOfTime (tvSec - lane.lastTs)) entry.1)
      (exchange.still tvSec) := by
  have ticks := sizeOfTime_sub awaits.nonneg later.le upper
  have behind := awaits.currTick
  have bounded : lane.currTick + sizeOfTime (tvSec - lane.lastTs) < 2 ^ 64 := by omega
  have now : lane.lastTs + (sizeOfTime (tvSec - lane.lastTs) : ℤ) = tvSec := by omega
  have lease := awaits.lease
  rw [← Exchange.still_still later.le]
  generalize exchange.still lane.lastTs = left at lease
  cases filed : lane.held with
  | none =>
      rw [filed] at lease
      rw [lease.of_none]
      exact .none
  | some entry =>
      obtain ⟨slot, query⟩ := entry
      rw [filed] at lease
      obtain ⟨until_, rfl, -⟩ := lease.of_some
      have visits := lease.visits_iff bounded
      rw [now] at visits
      have visited : Table.Visits lane.slotAt 0 (sizeOfTime (tvSec - lane.lastTs)) slot ↔
        until_ < tvSec := visits
      by_cases overdue : until_ < tvSec
      · have late : ¬ tvSec ≤ until_ := Int.not_le.mpr overdue
        simp only [Option.filter_some, visited, overdue, late, not_true_eq_false, decide_false,
          Bool.false_eq_true, ↓reduceIte]
        exact .none
      · have waiting : tvSec ≤ until_ := Int.not_lt.mp overdue
        have moved := lease.advance bounded (by
          rintro _ ⟨⟩
          rwa [now])
        rw [now] at moved
        simp only [Option.filter_some, visited, overdue, waiting, not_false_eq_true, decide_true,
          ↓reduceIte]
        exact moved

/-- **The tick** drops the question when its time is over. -/
theorem tick (awaits : lane.Awaits exchange) (positive : 0 < tvSec) (upper : tvSec < 2 ^ 63)
    (forward : lane.lastTs ≤ tvSec) :
    (lane.tick tvSec).Awaits exchange ∧ (lane.tick tvSec).lastTs = tvSec := by
  have nonneg := awaits.nonneg
  unfold Lane.tick
  by_cases progress : 0 < lane.lastTs ∧ lane.lastTs < tvSec
  · have ticks := sizeOfTime_sub nonneg forward upper
    have behind := awaits.currTick
    rw [if_pos progress]
    refine ⟨⟨positive.le, upper, ?_, fun zero => (positive.ne' zero).elim,
      awaits.lease_tick upper progress.2⟩, rfl⟩
    change (sizeT (lane.currTick + sizeOfTime (tvSec - lane.lastTs)) : ℤ) ≤ tvSec
    rw [sizeT_of_lt (by omega)]
    omega
  · rw [if_neg progress]
    refine ⟨⟨positive.le, upper, awaits.currTick.trans forward,
      fun zero => (positive.ne' zero).elim, ?_⟩, rfl⟩
    have lease := awaits.lease
    by_cases started : lane.lastTs = 0
    · have none := awaits.idle started
      rw [none] at lease
      have gone : exchange.still tvSec = Option.none := by
        rw [← Exchange.still_still forward, lease.of_none]
        rfl
      change Lease 600 lane.currTick tvSec lane.held (exchange.still tvSec)
      rw [none, gone]
      exact .none
    · have same : lane.lastTs = tvSec := by omega
      change Lease 600 lane.currTick tvSec lane.held (exchange.still tvSec)
      rwa [← same]

/-- Another question, under a lease of the present. -/
theorem holding (awaits : lane.Awaits exchange) (started : lane.lastTs ≠ 0)
    {held : Option (ℕ × Query)} {next : Exchange}
    (lease : Lease 600 lane.currTick lane.lastTs held (next.still lane.lastTs)) :
    Lane.Awaits { lane with held := held } next where
  nonneg := awaits.nonneg
  upper := awaits.upper
  currTick := awaits.currTick
  idle zero := (started zero).elim
  lease := lease

theorem packet (awaits : lane.Awaits exchange) (here : p.tvSec = lane.lastTs)
    (started : lane.lastTs ≠ 0) :
    Exec.Matches (fun next after => next.lastTs = lane.lastTs ∧ next.Awaits after)
      (lane.handle (some p)) (exchange.packet p) := by
  have lease := awaits.lease
  have behind := awaits.currTick
  have upper := awaits.upper
  have bounded : lane.currTick + queryTtl < 2 ^ 64 := by
    have small : queryTtl = 120 := rfl
    omega
  unfold Exchange.packet
  rw [here]
  generalize asked : exchange.still lane.lastTs = left at lease
  by_cases asks : p.dnsQuery = 0
  · rw [Lane.handle_query asks]
    simp only [asks, ↓reduceIte]
    cases left with
    | none =>
        have still : Exchange.still lane.lastTs ⟨some (lane.lastTs + queryTtl, newQuery blank p)⟩ =
            some (lane.lastTs + queryTtl, newQuery blank p) := by
          unfold Exchange.still
          simp [Option.filter_some]
        rw [Lane.query_of_none lease.of_not_held]
        refine .pure ?_
        refine ⟨rfl, awaits.holding started ?_⟩
        rw [still]
        exact .put (by decide) bounded _
    | some entry =>
        obtain ⟨until_, query⟩ := entry
        obtain ⟨slot, held, waiting⟩ := lease.of_held
        rw [held] at lease
        obtain ⟨_, ⟨⟩, -, again⟩ := lease.of_some
        have still : Exchange.still lane.lastTs ⟨some (until_, query.setLastTs p.ts)⟩ =
            some (until_, query.setLastTs p.ts) := by
          unfold Exchange.still
          simp [Option.filter_some, waiting]
        rw [Lane.query_of_some held]
        refine .pure ?_
        refine ⟨rfl, awaits.holding started ?_⟩
        rw [still]
        exact again _
  · rw [Lane.handle_response asks]
    unfold Lane.response
    simp only [asks, ↓reduceIte]
    cases left with
    | none =>
        rw [lease.of_not_held]
        refine .emit_bind _ (.pure ?_)
        exact ⟨rfl, awaits⟩
    | some entry =>
        obtain ⟨until_, query⟩ := entry
        obtain ⟨slot, held, -⟩ := lease.of_held
        simp only [held]
        cases named : query.qName 0 with
        | none => exact .abort
        | some qName =>
            rw [Exec.ofOption_some_bind, Exec.ofOption_some_bind]
            refine .emit_bind _ (.pure ?_)
            exact ⟨rfl, awaits⟩

end Lane.Awaits

/-! ## Runs -/

/-- The lane in step with the exchange, before calls that do not step backwards. -/
structure Lane.Before (inputs : List Glimpse) (lane : Lane) (exchange : Exchange) : Prop
    extends lane.Awaits exchange where
  ahead : ∀ seen ∈ inputs, lane.lastTs ≤ seen.tvSec
  sorted : inputs.Pairwise fun earlier later => earlier.tvSec ≤ later.tvSec
  legal : ∀ seen ∈ inputs, (0 < seen.tvSec ∧ seen.tvSec < 2 ^ 63) ∧
    ∀ p ∈ seen.own, p.tvSec = seen.tvSec

/-- Packets with other keys do not matter to the exchange. -/
theorem Lane.Before.run {inputs : List Glimpse} (before : lane.Before inputs exchange) :
    Exec.Matches (Lane.Before []) (Exec.run (fun lane seen => Lane.recv seen lane) lane inputs)
      (exchange.run (inputs.filterMap Glimpse.own)) := by
  have advance : ∀ seen rest (lane : Lane) (exchange : Exchange),
      lane.Before (seen :: rest) exchange → (lane.tick seen.tvSec).Awaits exchange ∧
        (lane.tick seen.tvSec).lastTs = seen.tvSec ∧ ∀ next : Lane, next.lastTs = seen.tvSec →
          ∀ after, next.Awaits after → next.Before rest after := by
    intro seen rest lane exchange before
    obtain ⟨⟨positive, upper⟩, own⟩ := before.legal seen List.mem_cons_self
    obtain ⟨ticked, now⟩ := before.tick positive upper (before.ahead seen List.mem_cons_self)
    obtain ⟨first, others⟩ := List.pairwise_cons.mp before.sorted
    refine ⟨ticked, now, fun next same after awaits => ⟨awaits, ?_, others, ?_⟩⟩
    · rw [same]
      exact first
    · exact fun later member => before.legal later (List.mem_cons_of_mem _ member)
  refine Exec.Matches.run_filterMap Glimpse.own Lane.Before ?_ ?_ before
  · intro seen rest lane exchange p own before
    obtain ⟨ticked, now, later⟩ := advance seen rest lane exchange before
    obtain ⟨⟨positive, -⟩, same⟩ := before.legal seen List.mem_cons_self
    have matched := ticked.packet ((same p own).trans now.symm) (by
      rw [now]
      exact positive.ne')
    unfold Lane.recv
    rw [own]
    exact matched.mono fun next after both => later next (both.1.trans now) after both.2
  · intro seen rest lane exchange own before
    obtain ⟨ticked, now, later⟩ := advance seen rest lane exchange before
    unfold Lane.recv
    rw [own]
    exact .pure (later _ now exchange ticked)

/-- The packets with the key. -/
def ownPackets (key : QueryKey) (inputs : List Input) : List Property :=
  (inputs.map Input.p).filter fun p => keyOf p = key

theorem filterMap_glimpse (key : QueryKey) (inputs : List Input) :
    (inputs.map (glimpse key)).filterMap Glimpse.own = ownPackets key inputs := by
  unfold ownPackets glimpse
  rw [List.filterMap_map, ← List.filterMap_eq_filter, List.filterMap_map]
  congr 1
  funext input
  by_cases own : keyOf input.p = key <;> simp [own, Option.guard]

theorem run_reports_eq (key : QueryKey) {inputs : List Input}
    (proper : ∀ input ∈ inputs, Proper input.p) :
    (ModDns.new.run inputs).events.filterMap (report key) =
      (Exec.run (fun lane seen => Lane.recv seen lane) Lane.new
        (inputs.map (glimpse key))).events := by
  have same := congrArg List.flatten (reports_eq_lane key inputs proper)
  rw [outputs, ← List.filterMap_flatten, ← Exec.run_events, ← Exec.run_events] at same
  exact same

theorem before_new (key : QueryKey) {inputs : List Input} (ordered : Ordered inputs) :
    Lane.new.Before (inputs.map (glimpse key)) ⟨none⟩ := by
  refine ⟨Lane.Awaits.new, fun seen member => ?_, ?_, fun seen member => ?_⟩
  · obtain ⟨input, called, rfl⟩ := List.mem_map.mp member
    exact (ordered.2 input called).le
  · rw [List.pairwise_map]
    exact ordered.1
  · obtain ⟨input, called, rfl⟩ := List.mem_map.mp member
    refine ⟨⟨ordered.2 input called, input.p.tvSec_upper⟩, fun p own => ?_⟩
    obtain ⟨-, same⟩ := Option.ite_none_right_eq_some.mp own
    rw [← Option.some.inj same]
    rfl

/-- Proper packets abort no run. -/
theorem exists_run {inputs : List Input} (proper : ∀ input ∈ inputs, Proper input.p) :
    ∃ this, (ModDns.new.run inputs).result = some this := by
  have yields : (ModDns.new.run inputs).Yields
      fun _ this => ∃ lane, Shows (default : QueryKey) this lane := by
    refine Exec.Yields.run (fun _ _ this => ∃ lane, Shows (default : QueryKey) this lane)
      ⟨_, Shows.new _⟩ ?_
    rintro calls input front events this ⟨lane, shows⟩
    have asked := proper input (front.subset (by simp))
    have rel := (shows.recv asked).2
    rcases recv_spec input.memory input.p this with ⟨⟨-, id, found, fails⟩, -⟩ |
      ⟨told, after, same, -⟩
    · obtain ⟨⟨slot, live⟩, -⟩ := findQuery_eq_some found
      have asks := (shows.tick input.p.tvSec).asks id slot live
      exact (fails.elim asks fun wrong => wrong asked.sized).elim
    · rw [same] at rel ⊢
      generalize (lane.recv _).result = result at rel
      cases rel with
      | some next => exact ⟨after, rfl, _, next⟩
  obtain ⟨this, returned, -⟩ := yields
  exact ⟨this, returned⟩

/-- **A transaction is an exchange.** In a run of proper packets whose timestamps are positive
and do not step backwards, what the module reports for a key is what the exchange of the key
reports for the packets with this key, whatever other packets there are and when. -/
theorem reports_eq_exchange (key : QueryKey) (inputs : List Input) (ordered : Ordered inputs)
    (proper : ∀ input ∈ inputs, Proper input.p) :
    (ModDns.new.run inputs).events.filterMap (report key) =
      (Exchange.run ⟨none⟩ (ownPackets key inputs)).events := by
  rw [run_reports_eq key proper, (before_new key ordered).run.events, filterMap_glimpse]

/-- A query is answered in time and again too late, beside a query with another key. -/
theorem reports_eq_exchange_sample :
    (ModDns.new.run [⟨blank, sampleQuery 1⟩, ⟨blank, { sampleQuery 2 with hashValue := 2 }⟩,
      ⟨blank, { sampleQuery 3 with dnsQuery := 1 }⟩,
      ⟨blank, { sampleQuery 500 with dnsQuery := 1 }⟩]).events.filterMap (report ⟨1, 0⟩) =
    (Exchange.run ⟨none⟩ [sampleQuery 1, { sampleQuery 3 with dnsQuery := 1 },
      { sampleQuery 500 with dnsQuery := 1 }]).events :=
  reports_eq_exchange ⟨1, 0⟩ _ (by decide) (by decide)

end ModDns

end Devourer
