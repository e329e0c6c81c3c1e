import Devourer.Modules.Dns.Outcomes
import Devourer.Modules.Dns.Resolution
import Devourer.Modules.Flow.Step

/-! # What the modules keep

`ModFlow` pops what its table expires in the call that expires it, but keeps the bytes
counted under a hash string for good. `ModDns` pops nothing before its destructor, so
what runs out in one of its tables stays there, and an unanswered query is reported at
the end only. What is kept is therefore bounded by what is live as long as nothing runs
out in `ModDns` and no hash string loses its last flow (`bounded_iff`).
-/

namespace Devourer

/-- The ticks run out a live object. -/
def Pool.RunsOut {α : Type} (ticks : ℕ) (pool : Pool α) : Prop :=
  ∃ id slot, pool.Live id slot ∧ Table.Visits pool.table.slotAt 0 ticks slot

instance {α : Type} (ticks : ℕ) (pool : Pool α) : Decidable (pool.RunsOut ticks) :=
  decidable_of_iff (∃ entry ∈ pool.table.live, Table.Visits pool.table.slotAt 0 ticks entry.2)
    (by simp only [Prod.exists, Pool.RunsOut, Pool.Live])

theorem Pool.exp_prog_eq_nil {α : Type} {pool : Pool α} (swept : pool.table.exp = []) (ticks : ℕ) :
    (pool.prog ticks).table.exp = [] ↔ ¬ pool.RunsOut ticks := by
  rw [List.eq_nil_iff_forall_not_mem]
  simp only [mem_exp_prog_iff, swept, List.not_mem_nil, false_or, RunsOut, not_exists]

theorem Pool.not_runsOut_zero {α : Type} (pool : Pool α) : ¬ pool.RunsOut 0 := by
  rintro ⟨id, slot, -, i, -, absurd, -⟩
  exact Nat.not_lt_zero i absurd

namespace ModDns

/-- No table holds an expired node. -/
structure Swept (this : ModDns) : Prop where
  queries : this.queryTable.table.exp = []
  addrs : this.addrTable.table.exp = []
  names : this.nameTable.table.exp = []

/-- The packet runs out a live node of a table. -/
def RunsOut (p : Property) (this : ModDns) : Prop :=
  this.queryTable.RunsOut (ticksTo p.tvSec this.lastTs) ∨
    this.addrTable.RunsOut (ticksTo p.tvSec this.lastTs) ∨
    this.nameTable.RunsOut (ticksTo p.tvSec this.lastTs)

instance (p : Property) (this : ModDns) : Decidable (this.RunsOut p) :=
  inferInstanceAs (Decidable (_ ∨ _ ∨ _))

/-- The call reports the unanswered queries that it runs out. -/
def Reports (input : Input) (this : ModDns) : Prop :=
  ∀ id slot, this.queryTable.Live id slot →
    Table.Visits this.queryTable.table.slotAt 0 (ticksTo input.p.tvSec this.lastTs) slot →
    (this.queryAt id).hasReply = false →
      timeouts id (this.recv input.memory input.p).events = 1

/-- After every call of the run no expired node is kept, and the unanswered queries among
them were reported. -/
structure Bounded (inputs : List Input) : Prop where
  swept : ∀ calls, calls <+: inputs → ∀ this, (ModDns.new.run calls).result = some this →
    this.Swept
  reported : ∀ calls input, calls ++ [input] <+: inputs → ∀ this,
    (ModDns.new.run calls).result = some this → this.Reports input

variable {this after : ModDns} {input : Input}

theorem swept_tick (swept : this.Swept) (p : Property) :
    (this.tick p.tvSec).Swept ↔ ¬ this.RunsOut p := by
  obtain ⟨queries, addrs, names⟩ := swept
  unfold RunsOut
  rw [not_or, not_or]
  by_cases progress : this.Progresses p.tvSec
  · have passes : ticksTo p.tvSec this.lastTs = sizeOfTime (p.tvSec - this.lastTs) :=
      if_pos progress
    rw [passes, tick_of_progresses progress,
      ← Pool.exp_prog_eq_nil queries, ← Pool.exp_prog_eq_nil addrs, ← Pool.exp_prog_eq_nil names]
    exact ⟨fun swept => ⟨swept.1, swept.2, swept.3⟩, fun all => ⟨all.1, all.2.1, all.2.2⟩⟩
  · have passes : ticksTo p.tvSec this.lastTs = 0 := if_neg progress
    rw [passes, tick_of_not_progresses progress]
    exact iff_of_true ⟨queries, addrs, names⟩
      ⟨Pool.not_runsOut_zero _, Pool.not_runsOut_zero _, Pool.not_runsOut_zero _⟩

/-- Remembering answers expires nothing. -/
theorem remember_exp {ts : ℤ} {answers : List AnswerRecord}
    (remembered : remember ts answers this = some after) :
    after.addrTable.table.exp = this.addrTable.table.exp ∧
      after.nameTable.table.exp = this.nameTable.table.exp := by
  induction answers generalizing this with
  | nil =>
      cases remembered
      exact ⟨rfl, rfl⟩
  | cons answer rest ih =>
      obtain ⟨middle, added, later⟩ := Option.bind_eq_some_iff.mp remembered
      obtain ⟨addrs, names⟩ := ih later
      rw [addrs, names]
      cases recordAdded_of_addRecord added with
      | address middle address added =>
          cases addressAdded_of_addAddress added with
          | known => exact ⟨rfl, rfl⟩
          | fresh => exact ⟨Pool.put_exp _ _, rfl⟩
      | isAlias =>
          unfold addCName
          cases this.nameTable.get CNameRecord.virt (CNameRecord.calcHash answer.data)
              answer.name with
          | some id => exact ⟨rfl, rfl⟩
          | none => exact ⟨rfl, Pool.put_exp _ _⟩
      | other => exact ⟨rfl, rfl⟩

/-- A call leaves no expired node exactly when it runs out none. -/
theorem swept_recv (kept : this.Kept) (swept : this.Swept)
    (returned : (this.recv input.memory input.p).result = some after) :
    after.Swept ↔ ¬ this.RunsOut input.p := by
  rw [← swept_tick swept]
  obtain ⟨events, -, handled⟩ := handled_of_recv returned
  have exps : after.queryTable.table.exp = (this.tick input.p.tvSec).queryTable.table.exp ∧
      after.addrTable.table.exp = (this.tick input.p.tvSec).addrTable.table.exp ∧
      after.nameTable.table.exp = (this.tick input.p.tvSec).nameTable.table.exp := by
    cases handled with
    | asked => exact ⟨Pool.put_exp _ _, rfl, rfl⟩
    | askedAgain => exact ⟨rfl, rfl, rfl⟩
    | answered id _ _ _ _ _ _ _ remembered =>
        have caches := remember_exp remembered
        rw [(kept.tick _).answered_queryTable remembered]
        exact ⟨rfl, caches⟩
    | missed => exact ⟨rfl, rfl, rfl⟩
  constructor
  · rintro ⟨queries, addrs, names⟩
    exact ⟨exps.1 ▸ queries, exps.2.1 ▸ addrs, exps.2.2 ▸ names⟩
  · rintro ⟨queries, addrs, names⟩
    exact ⟨exps.1.trans queries, exps.2.1.trans addrs, exps.2.2.trans names⟩

/-- Nothing is kept that has run out, if and only if nothing runs out. -/
theorem bounded_iff_quiet {inputs : List Input} {last : ModDns}
    (reached : (ModDns.new.run inputs).result = some last) :
    Bounded inputs ↔ ∀ calls input, calls ++ [input] <+: inputs →
      ∀ this, (ModDns.new.run calls).result = some this → ¬ this.RunsOut input.p := by
  have swept : (∀ calls, calls <+: inputs → ∀ this,
      (ModDns.new.run calls).result = some this → this.Swept) ↔
      ∀ calls input, calls ++ [input] <+: inputs →
        ∀ this, (ModDns.new.run calls).result = some this → ¬ this.RunsOut input.p :=
    Exec.invariant_iff ⟨rfl, rfl, rfl⟩ (fun calls this earlier swept input after returned =>
      swept_recv (Kept.run earlier) swept returned) reached
  constructor
  · rintro ⟨all, -⟩
    exact swept.mp all
  · intro quiet
    refine ⟨swept.mpr quiet, fun calls input front this earlier id slot live visited => ?_⟩
    exact (quiet calls input front this earlier (.inl ⟨id, slot, live, visited⟩)).elim

end ModDns

namespace ModFlow

/-- The table holds no expired flow, and bytes are kept only for the hash strings of the
flows in the table. -/
structure Bounded (this : ModFlow) : Prop where
  swept : this.flowTable.table.exp = []
  named : ∀ hex, this.updateMap hex ≠ none →
    ∃ id slot, this.flowTable.Live id slot ∧ (this.flow id).hvHex = hex

/-- The call expires the flow for good. -/
def Leaves (p : Property) (this : ModFlow) (id : ℕ) : Prop :=
  id ∈ this.expired p ∧ ¬ (0 < (this.flow id).remain ∧ sizeOfTime (this.flow id).remain < 3600)

/-- The flow is in the table and stays there. -/
def Stays (p : Property) (this : ModFlow) (id : ℕ) : Prop :=
  (∃ slot, this.flowTable.Live id slot) ∧ ¬ this.Leaves p id

/-- **The condition of a call.** The last flow of a hash string leaves the table, and the
packet does not begin a new one with this string. -/
def Forgets (input : Input) (this : ModFlow) : Prop :=
  ∃ id, this.Leaves input.p id ∧
    (∀ other, this.Stays input.p other → (this.flow other).hvHex ≠ (this.flow id).hvHex) ∧
    ¬ ((input.eid = this.evIpv4 ∨ input.eid = this.evIpv6) ∧
      (∀ other, this.Stays input.p other → (this.flow other).flowKey ≠ keyOf input.p) ∧
      input.p.hashHex = (this.flow id).hvHex)

instance (p : Property) (this : ModFlow) (id : ℕ) : Decidable (this.Leaves p id) :=
  inferInstanceAs (Decidable (_ ∧ ¬ (_ ∧ _)))

theorem forall_stays_iff {p : Property} {this : ModFlow} {holds : ℕ → Prop} :
    (∀ id, this.Stays p id → holds id) ↔
      ∀ entry ∈ this.flowTable.table.live, ¬ this.Leaves p entry.1 → holds entry.1 :=
  ⟨fun all entry live stays => all entry.1 ⟨⟨entry.2, live⟩, stays⟩,
    fun all id stays => stays.1.elim fun slot live => all (id, slot) live stays.2⟩

instance (input : Input) (this : ModFlow) : Decidable (this.Forgets input) :=
  decidable_of_iff
    (∃ id ∈ this.expired input.p, this.Leaves input.p id ∧
      (∀ entry ∈ this.flowTable.table.live, ¬ this.Leaves input.p entry.1 →
        (this.flow entry.1).hvHex ≠ (this.flow id).hvHex) ∧
      ¬ ((input.eid = this.evIpv4 ∨ input.eid = this.evIpv6) ∧
        (∀ entry ∈ this.flowTable.table.live, ¬ this.Leaves input.p entry.1 →
          (this.flow entry.1).flowKey ≠ keyOf input.p) ∧
        input.p.hashHex = (this.flow id).hvHex))
    (by
      simp only [Forgets, forall_stays_iff]
      exact ⟨fun ⟨id, _, forgets⟩ => ⟨id, forgets⟩,
        fun ⟨id, forgets⟩ => ⟨id, forgets.1.1, forgets⟩⟩)

/-- Bytes are kept for every flow that was ever built. -/
def Recorded (this : ModFlow) : Prop :=
  ∀ id < this.flowTable.built, this.updateMap (this.flow id).hvHex ≠ none

variable {this middle after : ModFlow} {input : Input} {handling : List FlowEvent} {p : Property}

theorem addBytes_ne_none {map : String → Option UInt64} {under hex : String} {len : UInt64} :
    addBytes map under len hex ≠ none ↔ map hex ≠ none ∨ hex = under := by
  unfold addBytes
  by_cases own : hex = under
  · subst own
    simp
  · simp [own]

/-- The flows in the table after the tick are those that stay. -/
theorem Ticked.stays_iff (ticked : Ticked p this middle) (kept : this.Kept) (id : ℕ) :
    (∃ slot, middle.flowTable.Live id slot) ↔ this.Stays p id := by
  simp only [ticked.live]
  constructor
  · rintro ⟨slot, ⟨live, notDue⟩ | ⟨due, remains, short, -⟩⟩
    · exact ⟨⟨slot, live⟩, fun leaves => notDue leaves.1⟩
    · exact ⟨expired_live kept due, fun leaves => leaves.2 ⟨remains, short⟩⟩
  · rintro ⟨⟨slot, live⟩, stays⟩
    by_cases due : id ∈ this.expired p
    · have ⟨remains, short⟩ : 0 < (this.flow id).remain ∧
          sizeOfTime (this.flow id).remain < 3600 := by
        by_contra gone
        exact stays ⟨due, gone⟩
      exact ⟨_, .inr ⟨due, remains, short, rfl⟩⟩
    · exact ⟨slot, .inl ⟨live, due⟩⟩

theorem Ticked.hvHex (ticked : Ticked p this middle) (id : ℕ) :
    (middle.flow id).hvHex = (this.flow id).hvHex := ticked.fixed (fun _ _ => rfl) id

theorem counted_hvHex (p : Property) (id other : ℕ) (this : ModFlow) :
    ((this.counted p id).flow other).hvHex = (this.flow other).hvHex := by
  rw [counted_flow]
  split
  · rename_i self
    rw [Flow.hvHex_update, self]
  · rfl

/-- The hash strings of the flows in the table after a packet was handled. -/
theorem Handled.named_iff (handled : Handled input.dns input.eid input.p middle handling after)
    (kept : middle.Kept) (hex : String) :
    (∃ id slot, after.flowTable.Live id slot ∧ (after.flow id).hvHex = hex) ↔
      (∃ id slot, middle.flowTable.Live id slot ∧ (middle.flow id).hvHex = hex) ∨
        (input.eid = middle.evIpv4 ∨ input.eid = middle.evIpv6) ∧
          (∀ id slot, middle.flowTable.Live id slot →
            (middle.flow id).flowKey ≠ keyOf input.p) ∧ input.p.hashHex = hex := by
  cases handled with
  | skipped other =>
      rw [or_iff_left fun new => other new.1]
  | known id slot ip live same =>
      rw [or_iff_left fun new => new.2.1 id slot live same]
      simp only [counted_hvHex]
      rfl
  | fresh src dst ip srcIs dstIs unknown =>
      simp only [counted_hvHex, and_iff_right ip, and_iff_right unknown, counted_live,
        added_live kept.size]
      constructor
      · rintro ⟨id, slot, here | ⟨rfl, -⟩, same⟩
        · rw [added_flow_of_lt (kept.wf.live_lt here)] at same
          exact .inl ⟨id, slot, here, same⟩
        · rw [added_flow_self] at same
          exact .inr same
      · rintro (⟨id, slot, here, same⟩ | same)
        · refine ⟨id, slot, .inl here, ?_⟩
          rwa [added_flow_of_lt (kept.wf.live_lt here)]
        · refine ⟨middle.flowTable.built, _, .inr ⟨rfl, rfl⟩, ?_⟩
          rwa [added_flow_self]

/-- The hash strings that bytes are kept for: one more at most, of a flow in the table. -/
theorem Handled.recorded_or_named
    (handled : Handled input.dns input.eid input.p middle handling after) (kept : middle.Kept)
    (hex : String) : after.updateMap hex ≠ none →
      middle.updateMap hex ≠ none ∨
        ∃ id slot, after.flowTable.Live id slot ∧ (after.flow id).hvHex = hex := by
  intro recorded
  cases handled with
  | skipped => exact .inl recorded
  | known id slot ip live same =>
      refine (addBytes_ne_none.mp recorded).imp_right fun own => ⟨id, slot, live, ?_⟩
      rw [counted_hvHex, own]
  | fresh src dst =>
      refine (addBytes_ne_none.mp recorded).imp_right fun own => ?_
      refine ⟨middle.flowTable.built, _, (added_live kept.size _ _ _).mpr (.inr ⟨rfl, rfl⟩), ?_⟩
      rw [counted_hvHex, own]

theorem Recorded.step (recorded : this.Recorded) (ticked : Ticked p this middle)
    {dns : ModDns} {eid : EvId} (handled : Handled dns eid p middle handling after) :
    after.Recorded ∧ ∀ hex, this.updateMap hex ≠ none → after.updateMap hex ≠ none := by
  have between : middle.Recorded := by
    intro id known
    rw [ticked.hvHex, ticked.updateMap]
    exact recorded id (ticked.built ▸ known)
  rw [← ticked.updateMap]
  cases handled with
  | skipped => exact ⟨between, fun _ old => old⟩
  | known other =>
      refine ⟨fun id known => ?_, fun hex old => addBytes_ne_none.mpr (.inl old)⟩
      rw [counted_hvHex]
      exact addBytes_ne_none.mpr (.inl (between id known))
  | fresh src dst =>
      refine ⟨fun id known => ?_, fun hex old => addBytes_ne_none.mpr (.inl old)⟩
      rw [counted_hvHex]
      apply addBytes_ne_none.mpr
      rcases Nat.lt_succ_iff_lt_or_eq.mp known with earlier | rfl
      · rw [added_flow_of_lt earlier]
        exact .inl (between id earlier)
      · exact .inr rfl

/-- **One call** keeps bytes for the flows in the table only, exactly when it does not let
the last flow of a hash string go. -/
theorem bounded_step (bounded : this.Bounded) (kept : this.Kept) (recorded : this.Recorded)
    (ticked : Ticked input.p this middle)
    (handled : Handled input.dns input.eid input.p middle handling after) :
    after.Bounded ↔ ¬ this.Forgets input := by
  have keptNext := handled.kept (ticked.kept kept)
  have named : ∀ hex, (∃ id slot, after.flowTable.Live id slot ∧ (after.flow id).hvHex = hex) ↔
      (∃ id, this.Stays input.p id ∧ (this.flow id).hvHex = hex) ∨
        (input.eid = this.evIpv4 ∨ input.eid = this.evIpv6) ∧
          (∀ id, this.Stays input.p id → (this.flow id).flowKey ≠ keyOf input.p) ∧
          input.p.hashHex = hex := by
    intro hex
    rw [handled.named_iff (ticked.kept kept) hex, ticked.evIpv4, ticked.evIpv6]
    simp only [← ticked.stays_iff kept, ticked.hvHex, ticked.flowKey, exists_and_right,
      forall_exists_index]
  constructor
  · rintro ⟨-, onlyLive⟩ ⟨id, leaves, alone, notNew⟩
    obtain ⟨slot, live⟩ := expired_live kept leaves.1
    have old := recorded id (kept.wf.live_lt live)
    have remains := (recorded.step ticked handled).2 _ old
    rcases (named _).mp (onlyLive _ remains) with ⟨other, stays, same⟩ | new
    · exact alone other stays same
    · exact notNew new
  · intro keeps
    refine ⟨keptNext.swept, fun hex remains => ?_⟩
    rcases handled.recorded_or_named (ticked.kept kept) hex remains with old | here
    · rw [ticked.updateMap] at old
      obtain ⟨id, slot, live, rfl⟩ := bounded.named hex old
      rw [named]
      by_contra lost
      push Not at lost
      obtain ⟨alone, notNew⟩ := lost
      have leaves : this.Leaves input.p id := by
        by_contra stays
        exact alone id ⟨⟨slot, live⟩, stays⟩ rfl
      exact keeps ⟨id, leaves, alone, fun new => notNew new.1 new.2.1 new.2.2⟩
    · exact here

theorem Recorded.run {evIpv4 evIpv6 : EvId} {inputs : List Input}
    (reached : ((ModFlow.new evIpv4 evIpv6).run inputs).result = some this) : this.Recorded :=
  (run_induction (Kept.new evIpv4 evIpv6) (fun _ _ this => this.Recorded) (fun _ => nofun)
    (fun _ _ _ _ _ _ _ _ ticked handled recorded => (recorded.step ticked handled).1) reached).2

theorem bounded_iff_keeps {evIpv4 evIpv6 : EvId} {inputs : List Input} {last : ModFlow}
    (reached : ((ModFlow.new evIpv4 evIpv6).run inputs).result = some last) :
    (∀ calls, calls <+: inputs → ∀ this,
      ((ModFlow.new evIpv4 evIpv6).run calls).result = some this → this.Bounded) ↔
    ∀ calls input, calls ++ [input] <+: inputs → ∀ this,
      ((ModFlow.new evIpv4 evIpv6).run calls).result = some this → ¬ this.Forgets input := by
  refine Exec.invariant_iff ⟨rfl, fun hex recorded => (recorded rfl).elim⟩
    (fun calls this earlier bounded input after returned => ?_) reached
  have kept := Kept.run earlier
  obtain ⟨-, middle, handling, ticked, handled, -⟩ := handled_of_recv kept returned
  exact bounded_step bounded kept (Recorded.run earlier) ticked handled

end ModFlow

/-- **When the modules keep no more than what is live.** In a run of `ModDns` that returns,
its tables hold no expired node after any call, and what runs out unanswered is reported
at once, if and only if no call runs out a live node. In a run of `ModFlow` that returns,
the table holds no expired flow after any call, and bytes are kept for the hash strings of
its flows only, if and only if no call lets the last flow of a hash string go. -/
theorem bounded_iff (evIpv4 evIpv6 : EvId) (dnsCalls : List ModDns.Input)
    (flowCalls : List ModFlow.Input) (dns : ModDns) (flow : ModFlow)
    (dnsReached : (ModDns.new.run dnsCalls).result = some dns)
    (flowReached : ((ModFlow.new evIpv4 evIpv6).run flowCalls).result = some flow) :
    (ModDns.Bounded dnsCalls ↔ ∀ calls input, calls ++ [input] <+: dnsCalls →
      ∀ this, (ModDns.new.run calls).result = some this → ¬ this.RunsOut input.p) ∧
    ((∀ calls, calls <+: flowCalls → ∀ this,
      ((ModFlow.new evIpv4 evIpv6).run calls).result = some this → this.Bounded) ↔
      ∀ calls input, calls ++ [input] <+: flowCalls → ∀ this,
        ((ModFlow.new evIpv4 evIpv6).run calls).result = some this → ¬ this.Forgets input) :=
  ⟨ModDns.bounded_iff_quiet dnsReached, ModFlow.bounded_iff_keeps flowReached⟩

/-- A query, and a packet after its time to live. -/
def unanswered : List ModDns.Input :=
  [⟨ModDns.blank, ModDns.sampleQuery 1⟩, ⟨ModDns.blank, ModDns.sampleQuery 200⟩]

/-- A flow with a hash string of its own, and a packet of another one after its timeout. -/
def departed : List ModFlow.Input :=
  [⟨ModDns.new, 4, { Property.sample 1 1 with hashHex := "a" }⟩, .sample 700 2]

/-- **What has run out is kept.** -/
theorem departed_kept : ¬ ModDns.Bounded unanswered ∧
    ModDns.timeouts 0 (ModDns.new.run unanswered).events = 0 ∧
    ∃ this, ((ModFlow.new 4 6).run departed).result = some this ∧ ¬ this.Bounded := by
  refine ⟨fun bounded => ?_, by decide +kernel, ?_⟩
  · have computed : (ModDns.new.run unanswered).result.map (fun this =>
        this.queryTable.table.exp) = some [0] := by
      decide +kernel
    obtain ⟨this, reached, kept⟩ := Option.map_eq_some_iff.mp computed
    have swept := (bounded.swept _ (List.prefix_refl _) this reached).queries
    cases kept.symm.trans swept
  · have computed : ((ModFlow.new 4 6).run departed).result.map (fun this =>
        (this.updateMap "a").isSome && this.flowTable.table.live.all fun entry =>
          (this.flow entry.1).hvHex ≠ "a") = some true := by
      decide +kernel
    obtain ⟨this, reached, facts⟩ := Option.map_eq_some_iff.mp computed
    obtain ⟨recorded, others⟩ := (Bool.and_eq_true _ _).mp facts
    refine ⟨this, reached, fun bounded => ?_⟩
    obtain ⟨id, slot, live, own⟩ := bounded.named "a" (Option.isSome_iff_ne_none.mp recorded)
    exact of_decide_eq_true (List.all_eq_true.mp others (id, slot) live) own

/-- A query with its response, the same query again, and one with another transaction. -/
def attended : List ModDns.Input :=
  [⟨ModDns.blank, ModDns.sampleQuery 1⟩, ⟨ModDns.blank, ModDns.sampleReply 2⟩,
    ⟨ModDns.blank, ModDns.sampleQuery 60⟩,
    ⟨ModDns.blank, { ModDns.sampleQuery 100 with dnsTxId := 7 }⟩]

/-- Two flows that come back with the packets that evict them. -/
def revisited : List ModFlow.Input :=
  let call (tvSec : UInt32) (hashValue : UInt64) (hashHex : String) : ModFlow.Input :=
    ⟨ModDns.new, 4, { Property.sample tvSec hashValue with hashHex }⟩
  [call 1 1 "a", call 2 2 "b", call 602 1 "a", call 603 2 "b", call 900 2 "b"]

/-- The clocks tick, and two flows are evicted whose hash strings are begun again. -/
theorem bounded_iff_sample : ModDns.Bounded attended ∧
    (∀ calls, calls <+: revisited → ∀ this,
      ((ModFlow.new 4 6).run calls).result = some this → this.Bounded) ∧
    ((ModFlow.new 4 6).run revisited).result.map (fun this =>
      this.flowTable.table.live.map Prod.fst) = some [3, 2] := by
  have quiet : Exec.Along (fun this input => this.recv input.memory input.p)
      (fun this input => ¬ this.RunsOut input.p) ModDns.new attended := by
    decide +kernel
  have keeps : Exec.Along (fun this input => this.recv input.dns input.eid input.p)
      (fun this input => ¬ this.Forgets input) (ModFlow.new 4 6) revisited := by
    decide +kernel
  have asked : (ModDns.new.run attended).result.isSome := by decide +kernel
  have counted : ((ModFlow.new 4 6).run revisited).result.isSome := by decide +kernel
  obtain ⟨dns, dnsReached⟩ := Option.isSome_iff_exists.mp asked
  obtain ⟨flow, flowReached⟩ := Option.isSome_iff_exists.mp counted
  obtain ⟨queries, flows⟩ := bounded_iff 4 6 _ _ dns flow dnsReached flowReached
  exact ⟨queries.mpr (Exec.along_iff.mp quiet), flows.mpr (Exec.along_iff.mp keeps),
    by decide +kernel⟩

end Devourer
