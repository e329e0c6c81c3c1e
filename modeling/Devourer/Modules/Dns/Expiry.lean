import Devourer.LRUHash.Ageing
import Devourer.Modules.Dns.Origin
import Devourer.Modules.Dns.Resolution

/-! # When queries and records expire

With positive timestamps that do not step backwards, the ticks of the tables are the
seconds of the packets. A query is then live for 120 seconds from the packet that built
it and a record of an address for 600, whatever packets with its key or address came
since: a query packet that finds a live query does not put it again. A response within
120 seconds of such a packet may therefore be reported as unsolicited (`misses_late_iff`).
-/

namespace Devourer

namespace ModDns

/-- The timestamps are positive and do not step backwards. -/
def Ordered (inputs : List Input) : Prop :=
  (inputs.Pairwise fun earlier later => earlier.p.tvSec ≤ later.p.tvSec) ∧
    ∀ input ∈ inputs, 0 < input.p.tvSec

instance : DecidablePred Ordered := fun _ => instDecidableAnd

/-- A response is reported as unsolicited only when no query packet with its key came in
the time that a query is put for. -/
def MissesLate (inputs : List Input) : Prop :=
  ∀ calls input, calls ++ [input] <+: inputs → ∀ this,
    (ModDns.new.run calls).result = some this → ∀ key msg,
      .miss key msg ∈ (this.recv input.memory input.p).events →
        ∀ earlier ∈ calls, Asks key earlier → queryTtl < input.p.tvSec - earlier.p.tvSec

/-- If a query packet with the key of a response came in the time that a query is put for,
one that came in this time built a query. -/
def BuiltInTime (calls : List Input) (input : Input) : Prop :=
  input.p.dnsQuery ≠ 0 → (∃ earlier ∈ calls, Asks (keyOf input.p) earlier ∧
      input.p.tvSec - earlier.p.tvSec ≤ queryTtl) →
    ∃ id call, BuiltBy id calls call ∧ keyOf call.p = keyOf input.p ∧
      input.p.tvSec - call.p.tvSec ≤ queryTtl

variable {inputs calls : List Input} {input : Input} {this after : ModDns} {id : ℕ}
  {memory : Memory} {p : Property} {events : List DnsEvent}

theorem Ordered.of_prefix (ordered : Ordered inputs) (front : calls <+: inputs) : Ordered calls :=
  ⟨ordered.1.sublist front.sublist, fun input member => ordered.2 input (front.subset member)⟩

/-! ## The clock -/

/-- The tables have not made more ticks than seconds have passed, and hold nothing before
the first packet. -/
structure Clocked (this : ModDns) : Prop where
  nonneg : 0 ≤ this.lastTs
  upper : this.lastTs < 2 ^ 63
  queryTick : (this.queryTable.table.currTick : ℤ) ≤ this.lastTs
  addrTick : (this.addrTable.table.currTick : ℤ) ≤ this.lastTs
  unused : this.lastTs = 0 → this.queryTable.built = 0 ∧ this.addrTable.built = 0

theorem Clocked.new : ModDns.new.Clocked := by
  refine ⟨?_, ?_, ?_, ?_, fun _ => ⟨rfl, rfl⟩⟩ <;> decide

/-- The clock is that of the last packet. -/
theorem lastTs_run (reached : (ModDns.new.run inputs).result = some this) :
    inputs = [] ∧ this.lastTs = 0 ∨ ∃ last ∈ inputs, this.lastTs = last.p.tvSec := by
  refine run_induction (fun inputs _ this => inputs = [] ∧ this.lastTs = 0 ∨
    ∃ last ∈ inputs, this.lastTs = last.p.tvSec) (.inl ⟨rfl, rfl⟩)
    (fun inputs input this events after earlier _ handled _ => ?_) reached
  have clock := (handled.clock ((Kept.run earlier).tick input.p.tvSec)).1
  exact .inr ⟨input, List.mem_append_right _ List.mem_cons_self, clock.trans (tick_lastTs ..)⟩

/-- The clock does not step backwards. -/
theorem lastTs_le (ordered : Ordered (inputs ++ [input]))
    (reached : (ModDns.new.run inputs).result = some this) : this.lastTs ≤ input.p.tvSec := by
  have positive := ordered.2 input (List.mem_append_right _ List.mem_cons_self)
  rcases lastTs_run reached with ⟨-, zero⟩ | ⟨last, member, same⟩
  · omega
  · rw [same]
    exact (List.pairwise_append.mp ordered.1).2.2 last member input List.mem_cons_self

theorem sizeOfTime_sub {earlier later : ℤ} (nonneg : 0 ≤ earlier) (forward : earlier ≤ later)
    (upper : later < 2 ^ 63) : (sizeOfTime (later - earlier) : ℤ) = later - earlier := by
  rw [sizeOfTime_of_nonneg (by omega) (by omega)]
  omega

theorem Clocked.tick (clocked : this.Clocked) (forward : this.lastTs ≤ p.tvSec)
    (positive : 0 < p.tvSec) : (this.tick p.tvSec).Clocked := by
  obtain ⟨nonneg, upper, queryTick, addrTick, -⟩ := clocked
  have last := p.tvSec_upper
  have seconds := sizeOfTime_sub nonneg forward last
  have ticks : ∀ {currTick : ℕ}, (currTick : ℤ) ≤ this.lastTs →
      (sizeT (currTick + sizeOfTime (p.tvSec - this.lastTs)) : ℤ) ≤ p.tvSec := by
    intro currTick before
    rw [sizeT_of_lt (by omega)]
    omega
  by_cases progress : this.Progresses p.tvSec
  · rw [tick_of_progresses progress]
    refine ⟨Int.le_of_lt positive, last, ticks queryTick, ticks addrTick, fun zero => ?_⟩
    exact (Int.ne_of_gt positive zero).elim
  · rw [tick_of_not_progresses progress]
    refine ⟨Int.le_of_lt positive, last, queryTick.trans forward, addrTick.trans forward,
      fun zero => ?_⟩
    exact (Int.ne_of_gt positive zero).elim

theorem Handled.clocked (handled : Handled memory p this events after) (kept : this.Kept)
    (clocked : this.Clocked) (positive : 0 < this.lastTs) : after.Clocked := by
  obtain ⟨lastTs, queryTick⟩ := handled.clock kept
  have addrTick : after.addrTable.table.currTick = this.addrTable.table.currTick := by
    cases handled with
    | asked => rfl
    | askedAgain => rfl
    | answered id _ _ _ _ _ _ _ remembered =>
        exact ((kept.answering id).remember remembered).framed.addrTick
    | missed => rfl
  refine ⟨?_, ?_, ?_, ?_, fun zero => ?_⟩
  · exact lastTs ▸ clocked.nonneg
  · exact lastTs ▸ clocked.upper
  · rw [queryTick, lastTs]
    exact clocked.queryTick
  · rw [addrTick, lastTs]
    exact clocked.addrTick
  · exact (Int.ne_of_gt positive (lastTs ▸ zero)).elim

theorem Clocked.run (ordered : Ordered inputs)
    (reached : (ModDns.new.run inputs).result = some this) : this.Clocked := by
  refine run_induction (fun inputs _ this => Ordered inputs → this.Clocked) (fun _ => Clocked.new)
    (fun inputs input this events after earlier _ handled ih ordered => ?_) reached ordered
  have positive := ordered.2 input (List.mem_append_right _ List.mem_cons_self)
  have clocked := ih (ordered.of_prefix (List.prefix_append _ _))
  have ticked := clocked.tick (lastTs_le ordered earlier) positive
  refine handled.clocked ((Kept.run earlier).tick input.p.tvSec) ticked ?_
  rwa [tick_lastTs]

/-! ## Ages -/

/-- The objects of a table grow older with the clock. -/
theorem ages_tick {α : Type} {ttl : ℕ} {born : ℕ → ℤ} {pool moved : Pool α} (wf : pool.WF)
    (clocked : this.Clocked) (ages : pool.Ages ttl born this.lastTs)
    (tick : (pool.table.currTick : ℤ) ≤ this.lastTs) (unused : this.lastTs = 0 → pool.built = 0)
    (forward : this.lastTs ≤ p.tvSec)
    (progresses : this.Progresses p.tvSec →
      moved = pool.prog (sizeOfTime (p.tvSec - this.lastTs)))
    (rests : ¬ this.Progresses p.tvSec → moved = pool) : moved.Ages ttl born p.tvSec := by
  have nonneg := clocked.nonneg
  by_cases progress : this.Progresses p.tvSec
  · have seconds := sizeOfTime_sub nonneg forward p.tvSec_upper
    have upper := p.tvSec_upper
    have older := ages.prog wf
      (show pool.table.currTick + sizeOfTime (p.tvSec - this.lastTs) < 2 ^ 64 by omega)
    rw [progresses progress]
    rwa [seconds, add_sub_cancel] at older
  · rw [rests progress]
    by_cases first : this.lastTs = 0
    · exact .of_empty wf (unused first) p.tvSec
    · have same : this.lastTs = p.tvSec := by
        by_contra different
        exact progress ⟨by omega, by omega⟩
      rwa [← same]

/-- The births of the objects that a run built, in seconds. -/
def Dates (built : ModDns → ℕ) (inputs : List Input) (born : ℕ → ℤ) : Prop :=
  ∀ id call, BuiltIn built inputs id call → born id = call.p.tvSec

theorem Dates.of_append {built : ModDns → ℕ} {born : ℕ → ℤ}
    (dates : Dates built (inputs ++ [input]) born) : Dates built inputs born :=
  fun id call builtIn => dates id call (builtIn.append [input])

/-- The two tables after a tick. -/
theorem Clocked.ages_tick (clocked : this.Clocked) (kept : this.Kept)
    (forward : this.lastTs ≤ p.tvSec) {born : ℕ → ℤ} :
    (this.queryTable.Ages queryTtl born this.lastTs →
      (this.tick p.tvSec).queryTable.Ages queryTtl born p.tvSec) ∧
    (this.addrTable.Ages cacheTtl born this.lastTs →
      (this.tick p.tvSec).addrTable.Ages cacheTtl born p.tvSec) := by
  constructor
  · intro ages
    refine ModDns.ages_tick kept.queries clocked ages clocked.queryTick
      (fun zero => (clocked.unused zero).1) forward ?_ ?_
    · exact fun progress => by rw [tick_of_progresses progress]; rfl
    · exact fun still => by rw [tick_of_not_progresses still]
  · intro ages
    refine ModDns.ages_tick kept.addrs clocked ages clocked.addrTick
      (fun zero => (clocked.unused zero).2) forward ?_ ?_
    · exact fun progress => by rw [tick_of_progresses progress]; rfl
    · exact fun still => by rw [tick_of_not_progresses still]

/-- **Queries live for as long as they are put for.** -/
theorem queries_age (ordered : Ordered inputs)
    (reached : (ModDns.new.run inputs).result = some this) {born : ℕ → ℤ}
    (dates : Dates builtQueries inputs born) :
    this.queryTable.Ages queryTtl born this.lastTs := by
  refine run_induction (fun inputs _ this => Ordered inputs → Dates builtQueries inputs born →
    this.queryTable.Ages queryTtl born this.lastTs)
    (fun _ _ => .of_empty (Pool.WF.new 600) rfl 0)
    (fun inputs input this events after earlier called handled ih ordered dates => ?_) reached
    ordered dates
  have before := ordered.of_prefix (List.prefix_append inputs [input])
  have forward := lastTs_le ordered earlier
  have positive := ordered.2 input (List.mem_append_right _ List.mem_cons_self)
  have clocked := Clocked.run before earlier
  have kept := (Kept.run earlier).tick input.p.tvSec
  have ages := (clocked.ages_tick (Kept.run earlier) forward).1 (ih before dates.of_append)
  rw [(handled.clock kept).1, tick_lastTs]
  cases id handled with
  | asked query absent =>
      have ticked := clocked.tick forward positive
      have bounded : (this.tick input.p.tvSec).queryTable.table.currTick + queryTtl < 2 ^ 64 := by
        have := ticked.queryTick
        have := ticked.upper
        unfold queryTtl
        omega
      refine ages.add ?_ kept.queryFits bounded _
      apply dates _ input
      refine (Exec.builtIn_snoc earlier).mpr (.inr ⟨rfl, _, congrArg Exec.result called, ?_, ?_⟩)
      · exact Nat.le_of_eq (tick_queries input.p.tvSec this).1.symm
      · exact Nat.lt_succ_self _
  | askedAgain id => exact ages.modify id _
  | answered id qName logs after response found named only remembered =>
      rw [kept.answered_queryTable remembered]
      exact ages.modify id _
  | missed => exact ages

/-- A call never takes a record of an address back. -/
theorem builtAddrs_grows (calls : List Input) (this : ModDns)
    (reached : (ModDns.new.run calls).result = some this) (input : Input) (after : ModDns)
    (returned : (this.recv input.memory input.p).result = some after) :
    builtAddrs this ≤ builtAddrs after := by
  have kept := (Kept.run reached).tick input.p.tvSec
  rw [← (tick_built input.p.tvSec this).1]
  obtain ⟨events, -, handled⟩ := handled_of_recv returned
  cases handled with
  | asked => exact Nat.le_refl _
  | askedAgain => exact Nat.le_refl _
  | answered id _ _ _ _ _ _ _ remembered =>
      exact ((kept.answering id).remember remembered).framed.addrBuilt
  | missed => exact Nat.le_refl _

/-- Queries are live when a packet comes that comes early enough. -/
theorem live_query_iff (ordered : Ordered (inputs ++ [input]))
    (reached : (ModDns.new.run inputs).result = some this) {call : Input}
    (builtBy : BuiltBy id inputs call) :
    (∃ slot, (this.tick input.p.tvSec).queryTable.Live id slot) ↔
      input.p.tvSec ≤ call.p.tvSec + queryTtl := by
  have before := ordered.of_prefix (List.prefix_append inputs [input])
  obtain ⟨born, dates⟩ :=
    Exec.exists_read builtQueries_grows (fun call : Input => call.p.tvSec) reached
  have ages := ((Clocked.run before reached).ages_tick (Kept.run reached)
    (lastTs_le ordered reached)).1 (queries_age before reached dates)
  have known : id < (this.tick input.p.tvSec).queryTable.built :=
    (tick_queries input.p.tvSec this).1 ▸ builtBy.known reached
  rw [ages.live_iff known, dates id call (builtBy_iff.mp builtBy)]

/-- A packet finds a query as long as one with its key was built in time. -/
theorem findQuery_eq_none_iff (ordered : Ordered (calls ++ [input]))
    (reached : (ModDns.new.run calls).result = some this) :
    (this.tick input.p.tvSec).findQuery input.p = none ↔
      ∀ id call, BuiltBy id calls call → keyOf call.p = keyOf input.p →
        call.p.tvSec + queryTtl < input.p.tvSec := by
  have objects := tick_queryAt input.p.tvSec this
  constructor
  · intro absent id call builtBy own
    by_contra early
    obtain ⟨slot, live⟩ := (live_query_iff ordered reached builtBy).mpr (Int.not_lt.mp early)
    obtain ⟨call', origin⟩ := Origin.run reached (builtBy.known reached)
    obtain rfl := builtBy.unique origin.builtBy reached
    apply findQuery_eq_none absent live
    rw [objects, origin.query, newQuery_eq]
    exact own
  · intro late
    cases found : (this.tick input.p.tvSec).findQuery input.p with
    | none => rfl
    | some id =>
        obtain ⟨live, own⟩ := findQuery_eq_some found
        obtain ⟨call, recent, builtBy, -, origin⟩ := findQuery_origin reached found
        rw [origin, newQuery_eq] at own
        have early := (live_query_iff ordered reached builtBy).mp live
        exact (Int.not_lt.mpr early (late id call builtBy own)).elim

/-- **When a response in time is never unsolicited.** With positive timestamps that do not
step backwards, a response is reported as unsolicited only when no query packet with its
key came in the last 120 seconds, if and only if, whenever a response comes in this time
after a query packet with its key, one such packet in this time built a query. -/
theorem misses_late_iff (inputs : List Input) (ordered : Ordered inputs) : MissesLate inputs ↔
    ∀ calls input, calls ++ [input] <+: inputs → ∀ this,
      (ModDns.new.run calls).result = some this → BuiltInTime calls input := by
  constructor
  · rintro misses calls input front this reached response ⟨earlier, member, asks, recent⟩
    by_contra unbuilt
    have absent : (this.tick input.p.tvSec).findQuery input.p = none := by
      refine (findQuery_eq_none_iff (ordered.of_prefix front) reached).mpr
        fun id call builtBy own => ?_
      by_contra early
      exact unbuilt ⟨id, call, builtBy, own, by omega⟩
    have late := misses calls input front this reached _ _
      (miss_mem_recv.mpr ⟨response, absent, rfl, rfl⟩) earlier member asks
    omega
  · intro built calls input front this reached key msg reported earlier member asks
    obtain ⟨response, absent, rfl, -⟩ := miss_mem_recv.mp reported
    by_contra recent
    obtain ⟨id, call, builtBy, own, inTime⟩ := built calls input front this reached response
      ⟨earlier, member, asks, Int.not_lt.mp recent⟩
    have late := (findQuery_eq_none_iff (ordered.of_prefix front) reached).mp absent id call
      builtBy own
    omega

/-- A query that is asked again shortly before it expires. -/
def askedLate : List Input := [⟨blank, sampleQuery 1⟩, ⟨blank, sampleQuery 100⟩]

/-- **The response fifty seconds later is reported as unsolicited.** -/
theorem askedLate_missed : Ordered (askedLate ++ [⟨blank, sampleReply 150⟩]) ∧
    ¬ MissesLate (askedLate ++ [⟨blank, sampleReply 150⟩]) := by
  refine ⟨by decide +kernel, fun misses => ?_⟩
  have computed : (ModDns.new.run askedLate).result.map (fun this =>
      (this.tick 150).findQuery (sampleReply 150)) = some none := by
    decide +kernel
  obtain ⟨this, reached, absent⟩ := Option.map_eq_some_iff.mp computed
  have late := misses askedLate ⟨blank, sampleReply 150⟩ (List.prefix_refl _) this reached _ _
    (miss_mem_recv.mpr ⟨by decide, absent, rfl, rfl⟩) ⟨blank, sampleQuery 100⟩
    (List.mem_cons_of_mem _ List.mem_cons_self) (by decide +kernel)
  exact absurd late (by decide +kernel)

/-- A response while the query is live. -/
theorem misses_late_iff_sample : MissesLate (askedLate ++ [⟨blank, sampleReply 110⟩]) := by
  refine (misses_late_iff _ (by decide +kernel)).mpr (Exec.forall_snoc_front.mpr ⟨?_, ?_⟩)
  · intro calls input front this reached response
    have queries : ∀ input ∈ askedLate, input.p.dnsQuery = 0 := by decide +kernel
    exact (response (queries input
      (front.subset (List.mem_append_right _ List.mem_cons_self)))).elim
  · intro this reached response recent
    have absent : (ModDns.new.tick 1).findQuery (sampleQuery 1) = none := by decide +kernel
    exact ⟨0, ⟨blank, sampleQuery 1⟩, ⟨[], [⟨blank, sampleQuery 100⟩], ModDns.new, rfl, rfl, rfl,
      by decide, absent⟩, rfl, by decide +kernel⟩

end ModDns

end Devourer
