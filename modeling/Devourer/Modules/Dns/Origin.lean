import Devourer.Foundation.Origin
import Devourer.LRUHash.Keyed
import Devourer.Modules.Dns.Outcomes

/-! # Where queries come from

A packet is looked up before a query or a record is put for it, so no two live queries
have the same key and no two live records the same address (`Keyed`). A query is what
the packet that built it made of it (`Origin`); what the later packets with its key
change are a time, which is that of the last query packet (`lastAsked`), and the mark of
a reply.
-/

namespace Devourer

namespace ModDns

/-! ## One live node for each key -/

/-- No two live queries have the same transaction, and no two records the same address. -/
structure Keyed (this : ModDns) : Prop where
  queries : this.queryTable.Keyed Query.key
  addrs : this.addrTable.Keyed ARecord.key

variable {this after : ModDns} {memory : Memory} {p : Property} {events : List DnsEvent}

theorem Keyed.new : ModDns.new.Keyed := ⟨Pool.Keyed.new 600, Pool.Keyed.new 1200⟩

theorem Keyed.tick (keyed : this.Keyed) (ts : ℤ) : (this.tick ts).Keyed := by
  by_cases progress : this.Progresses ts
  · rw [tick_of_progresses progress]
    exact ⟨keyed.queries.prog _, keyed.addrs.prog _⟩
  · rw [tick_of_not_progresses progress]
    exact ⟨keyed.queries, keyed.addrs⟩

/-- An address is looked up under its own hash value before a record is put for it. -/
theorem Keyed.addAddress (keyed : this.Keyed) (kept : this.Kept) {ts : ℤ} {answer : AnswerRecord}
    (added : this.addAddress ts answer = some after) : after.Keyed := by
  cases addressAdded_of_addAddress added with
  | known hv id hashes found =>
      exact ⟨keyed.queries, keyed.addrs.modify
        (fun record => congrArg Prod.snd (ARecord.read_update ts record)) id⟩
  | fresh hv hashes found =>
      refine ⟨keyed.queries, keyed.addrs.add kept.addrs (fun id slot live same => ?_) kept.addrFits⟩
      exact kept.getAddr_eq_none hashes found id slot (this.addrTable.object id).name
        ⟨live, Prod.ext rfl same⟩

/-- An alias is remembered in another table. -/
theorem Keyed.addCName (keyed : this.Keyed) (ts : ℤ) (answer : AnswerRecord) :
    (this.addCName ts answer).Keyed := by
  unfold ModDns.addCName
  split
  · exact ⟨keyed.queries, keyed.addrs⟩
  · exact ⟨keyed.queries, keyed.addrs⟩

theorem Keyed.remember (keyed : this.Keyed) (kept : this.Kept) {ts : ℤ}
    {answers : List AnswerRecord} (added : ModDns.remember ts answers this = some after) :
    after.Keyed :=
  remember_induction (fun _ _ _ _ _ kept added keyed => keyed.addAddress kept added)
    (fun answer _ _ _ _ keyed => keyed.addCName ts answer) kept added keyed

/-- The mark of a reply is no part of a key. -/
theorem Keyed.answering (keyed : this.Keyed) (id : ℕ) : ({ this with
    queryTable := this.queryTable.modify id (Query.setHasReply true) } : ModDns).Keyed :=
  ⟨keyed.queries.modify (Query.key_setHasReply true) id, keyed.addrs⟩

/-- **Handling a packet.** A query is looked up before one is put. -/
theorem Handled.keyed (handled : Handled memory p this events after) (kept : this.Kept)
    (keyed : this.Keyed) : after.Keyed := by
  cases handled with
  | asked query absent =>
      refine ⟨keyed.queries.add kept.queries (fun id slot live => ?_) kept.queryFits, keyed.addrs⟩
      rw [newQuery_eq]
      exact findQuery_eq_none absent live
  | askedAgain id => exact ⟨keyed.queries.modify (Query.key_setLastTs p.ts) id, keyed.addrs⟩
  | answered id qName logs after response found named only remembered =>
      exact (keyed.answering id).remember (kept.answering id) remembered
  | missed => exact keyed

theorem Keyed.run {inputs : List Input} (reached : (ModDns.new.run inputs).result = some this) :
    this.Keyed :=
  run_induction (fun _ _ this => this.Keyed) Keyed.new
    (fun _ input _ _ _ earlier _ handled keyed =>
      handled.keyed ((Kept.run earlier).tick input.p.tvSec) (keyed.tick input.p.tvSec)) reached

/-- The lookup for the key of a live query finds the query. -/
theorem Keyed.get_query (keyed : this.Keyed) {id slot : ℕ} (live : this.queryTable.Live id slot) :
    this.queryTable.get Query.virt (this.queryAt id).key.hash (this.queryAt id).key = some id :=
  keyed.queries.get_eq_some live (Query.answers_iff.mpr rfl) fun _ => Query.answers_iff.mp

/-- The lookup for the address of a live record finds the record. -/
theorem Keyed.get_addr (keyed : this.Keyed) (kept : this.Kept) {id slot : ℕ}
    (live : this.addrTable.Live id slot) :
    ∃ hv, ARecord.calcHash (this.addrTable.object id).key = some hv ∧
      this.addrTable.get ARecord.virt hv (this.addrTable.object id).key = some id := by
  refine ⟨_, kept.hashed id slot live, keyed.addrs.get_eq_some live ⟨rfl, decide_eq_true rfl⟩ ?_⟩
  exact fun record answers => of_decide_eq_true answers.2

/-! ## Which call built an object -/

/-- The queries built so far. -/
def builtQueries (this : ModDns) : ℕ := this.queryTable.built

/-- The call built the object with the number, as `built` counts them. -/
abbrev BuiltIn (built : ModDns → ℕ) : List Input → ℕ → Input → Prop :=
  Exec.BuiltIn (fun this input => this.recv input.memory input.p) ModDns.new built

/-- A call never takes a query back. -/
theorem builtQueries_grows (calls : List Input) (this : ModDns)
    (reached : (ModDns.new.run calls).result = some this) (input : Input) (after : ModDns)
    (returned : (this.recv input.memory input.p).result = some after) :
    this.builtQueries ≤ after.builtQueries := by
  unfold builtQueries
  obtain ⟨events, -, handled⟩ := handled_of_recv returned
  rw [← (tick_queries input.p.tvSec this).1]
  rcases handled.built ((Kept.run reached).tick input.p.tvSec) with rest | ⟨grown, -⟩
  · exact Nat.le_of_eq rest.symm
  · exact grown ▸ Nat.le_succ _

theorem BuiltBy.mem {id : ℕ} {inputs : List Input} {call : Input}
    (builtBy : BuiltBy id inputs call) : call ∈ inputs ∧ call.p.dnsQuery = 0 := by
  obtain ⟨front, back, before, rfl, -, -, query, -⟩ := builtBy
  exact ⟨List.mem_append_right _ List.mem_cons_self, query⟩

/-- A query is built by a query packet without a match. -/
theorem builtBy_iff {id : ℕ} {inputs : List Input} {call : Input} :
    BuiltBy id inputs call ↔ BuiltIn builtQueries inputs id call := by
  constructor
  · rintro ⟨front, back, before, split, reached, rfl, query, absent⟩
    have kept := (Kept.run reached).tick call.p.tvSec
    have built := (tick_queries call.p.tvSec before).1
    rcases recv_spec call.memory call.p before with ⟨⟨response, -⟩, -⟩ |
      ⟨events, after, same, handled⟩
    · exact (response query).elim
    refine ⟨front, back, before, after, split, reached, congrArg Exec.result same, Nat.le_refl _,
      ?_⟩
    unfold builtQueries
    cases handled with
    | asked => exact Nat.lt_succ_of_le (Nat.le_of_eq built.symm)
    | askedAgain other _ found => cases absent.symm.trans found
    | answered _ _ _ _ response => exact (response query).elim
    | missed response => exact (response query).elim
  · rintro ⟨front, back, before, after, split, reached, returned, lower, upper⟩
    have kept := (Kept.run reached).tick call.p.tvSec
    have built := (tick_queries call.p.tvSec before).1
    unfold builtQueries at lower upper
    change (before.recv call.memory call.p).result = some after at returned
    obtain ⟨events, -, handled⟩ := handled_of_recv returned
    rcases handled.built kept with rest | ⟨grown, -, query, absent, -⟩
    · omega
    · exact ⟨front, back, before, split, reached, by omega, query, absent⟩

/-- One call only builds a query. -/
theorem BuiltBy.unique {id : ℕ} {inputs : List Input} {call other : Input}
    (builtBy : BuiltBy id inputs call) (builtBy' : BuiltBy id inputs other)
    (reached : (ModDns.new.run inputs).result = some this) : call = other :=
  Exec.BuiltIn.unique builtQueries_grows (builtBy_iff.mp builtBy) (builtBy_iff.mp builtBy') reached

theorem BuiltBy.known {id : ℕ} {inputs : List Input} {call : Input}
    (builtBy : BuiltBy id inputs call) (reached : (ModDns.new.run inputs).result = some this) :
    id < this.queryTable.built := by
  have passed := Exec.BuiltIn.lt builtQueries_grows (builtBy_iff.mp builtBy) reached
  exact passed

/-! ## What a query is -/

/-- The input is a query packet with the key. -/
def Asks (key : QueryKey) (input : Input) : Prop := input.p.dnsQuery = 0 ∧ keyOf input.p = key

instance (key : QueryKey) : DecidablePred (Asks key) := fun _ => instDecidableAnd

/-- The last query packet with the key. -/
def lastAsked (key : QueryKey) (inputs : List Input) : Option Property :=
  (inputs.filter fun input => Asks key input).getLast?.map Input.p

theorem lastAsked_snoc (key : QueryKey) (inputs : List Input) (input : Input) :
    lastAsked key (inputs ++ [input]) =
      if Asks key input then some input.p else lastAsked key inputs := by
  unfold lastAsked
  rw [List.filter_append]
  by_cases asks : Asks key input
  · simp [asks]
  · simp [asks]

theorem exists_of_lastAsked {key : QueryKey} {inputs : List Input} {recent : Property}
    (asked : lastAsked key inputs = some recent) :
    ∃ input ∈ inputs, Asks key input ∧ input.p = recent := by
  obtain ⟨input, last, rfl⟩ := Option.map_eq_some_iff.mp asked
  obtain ⟨member, asks⟩ := List.mem_filter.mp (List.mem_of_getLast? last)
  exact ⟨input, member, of_decide_eq_true asks, rfl⟩

/-- The query is what the call that built it made of it, but for the time of the last
query packet and the mark of a reply. -/
structure Origin (id : ℕ) (inputs : List Input) (this : ModDns) (call : Input) : Prop where
  builtBy : BuiltBy id inputs call
  held : id ∈ this.queryTable.table.nodes
  query : this.queryAt id = { newQuery call.memory call.p with
    ts := (this.queryAt id).ts
    hasReply := call.memory.hasReply || decide (0 < matched id inputs) }

/-- **Handling a packet** changes a query that was built before in these two places. -/
theorem Handled.queryAt (handled : Handled memory p this events after) (kept : this.Kept) {id : ℕ}
    (known : id < this.queryTable.built) : after.queryAt id = { this.queryAt id with
      ts := if p.dnsQuery = 0 ∧ this.findQuery p = some id then p.ts else (this.queryAt id).ts
      hasReply := (this.queryAt id).hasReply ||
        decide (p.dnsQuery ≠ 0 ∧ this.findQuery p = some id) } := by
  cases handled with
  | asked query absent =>
      have old : ((this.queryTable.build (newQuery memory p)).object id) = this.queryAt id :=
        Pool.build_object_of_lt known _
      apply old.trans
      simp [query, absent]
  | askedAgain other query found =>
      by_cases self : other = id
      · subst self
        simp [query, found, ModDns.queryAt, Query.setLastTs]
      · have still : (this.queryTable.modify other (Query.setLastTs p.ts)).object id =
            this.queryAt id := Pool.modify_object_of_ne (Ne.symm self) _
        apply still.trans
        simp [found, self]
  | answered other qName logs _ response found named only remembered =>
      rw [ModDns.queryAt, kept.answered_queryTable remembered]
      by_cases self : other = id
      · subst self
        simp [response, found, Query.setHasReply]
      · rw [Pool.modify_object_of_ne (Ne.symm self)]
        simp [response, found, self]
  | missed response absent => simp [response, absent]

/-- It leaves the queries live that were, and puts one if it builds one. -/
theorem Handled.live_query (handled : Handled memory p this events after) (kept : this.Kept)
    {id slot : ℕ} : after.queryTable.Live id slot ↔ this.queryTable.Live id slot ∨
      p.dnsQuery = 0 ∧ this.findQuery p = none ∧ id = this.queryTable.built ∧
        slot = this.queryTable.table.slotFor queryTtl := by
  cases handled with
  | asked query absent =>
      rw [Pool.live_build_put_iff kept.queryFits]
      exact or_congr_right ⟨fun new => ⟨query, absent, new⟩, fun new => new.2.2⟩
  | askedAgain other query found =>
      rw [Pool.live_modify, or_iff_left fun new => Option.some_ne_none _ (found.symm.trans new.2.1)]
  | answered other qName logs _ response found named only remembered =>
      rw [kept.answered_queryTable remembered, Pool.live_modify, or_iff_left fun new =>
        response new.1]
  | missed response absent => rw [or_iff_left fun new => response new.1]

/-- No response was matched to a query that is not built yet. -/
theorem matched_unborn {inputs : List Input} (reached : (ModDns.new.run inputs).result = some this)
    {id : ℕ} (late : this.queryTable.built ≤ id) : matched id inputs = 0 := by
  induction inputs using List.reverseRecOn generalizing this with
  | nil => rfl
  | append_singleton inputs input ih =>
      obtain ⟨before, earlier, returned⟩ := Exec.run_snoc_result.mp reached
      have grows := builtQueries_grows inputs before earlier input this returned
      have unborn : before.queryTable.built ≤ id := grows.trans late
      rw [matched_snoc input earlier, ih earlier unborn, Nat.zero_add]
      apply if_neg
      rintro ⟨-, found⟩
      obtain ⟨slot, live⟩ := (findQuery_eq_some found).1
      have known := ((Kept.run earlier).tick input.p.tvSec).queries.live_lt live
      rw [(tick_queries input.p.tvSec before).1] at known
      exact Nat.not_lt.mpr unborn known

variable {id : ℕ} {inputs : List Input} {input call : Input}

/-- A query that was built before stays what it was made of. -/
theorem Origin.step (origin : Origin id inputs this call)
    (reached : (ModDns.new.run inputs).result = some this)
    (handled : Handled input.memory input.p (this.tick input.p.tvSec) events after) :
    Origin id (inputs ++ [input]) after call := by
  have kept := (Kept.run reached).tick input.p.tvSec
  obtain ⟨built, objects, nodes⟩ := tick_queries input.p.tvSec this
  have known : id < (this.tick input.p.tvSec).queryTable.built :=
    built ▸ origin.builtBy.known reached
  have same := handled.queryAt kept known
  have old : (this.tick input.p.tvSec).queryAt id = this.queryAt id := congrFun objects id
  refine ⟨origin.builtBy.snoc input, ?_, ?_⟩
  · exact (handled.follows kept known).1 ((nodes id).mpr origin.held)
  · rw [same, matched_pos_snoc input reached, old, origin.query, Bool.or_assoc]

/-- **Every query has its origin.** -/
theorem Origin.run (reached : (ModDns.new.run inputs).result = some this)
    (known : id < this.queryTable.built) : ∃ call, Origin id inputs this call := by
  refine run_induction (fun inputs _ this => ∀ id < this.queryTable.built,
    ∃ call, Origin id inputs this call) nofun
    (fun inputs input this events after earlier _ handled origins id known => ?_) reached id known
  have kept := (Kept.run earlier).tick input.p.tvSec
  obtain ⟨built, -, -⟩ := tick_queries input.p.tvSec this
  rcases handled.built kept with rest | ⟨grown, -, query, absent, held, object⟩
  · obtain ⟨call, origin⟩ := origins id (by omega)
    exact ⟨call, origin.step earlier handled⟩
  by_cases old : id < this.queryTable.built
  · obtain ⟨call, origin⟩ := origins id old
    exact ⟨call, origin.step earlier handled⟩
  obtain rfl : id = this.queryTable.built := by omega
  have unmatched : decide (0 < matched this.queryTable.built (inputs ++ [input])) = false := by
    rw [matched_pos_snoc input earlier, matched_unborn earlier (Nat.le_refl _), absent]
    simp
  rw [built] at held object
  refine ⟨input, ⟨inputs, [], this, rfl, earlier, rfl, query, absent⟩, held, ?_⟩
  rw [object, unmatched, newQuery_eq, Bool.or_false]

/-- The clock makes no query live. -/
theorem live_of_tick {ts : ℤ} {slot : ℕ} (live : (this.tick ts).queryTable.Live id slot) :
    this.queryTable.Live id slot := by
  by_cases progress : this.Progresses ts
  · rw [tick_of_progresses progress] at live
    exact ((Pool.live_prog_iff _ id slot).mp live).1
  · rwa [tick_of_not_progresses progress] at live

/-- **A live query knows the last query packet**: its second time is that of the last query
packet with its key. -/
theorem lastAsked_run (reached : (ModDns.new.run inputs).result = some this) {slot : ℕ}
    (live : this.queryTable.Live id slot) : ∃ recent,
      lastAsked (this.queryAt id).key inputs = some recent ∧ (this.queryAt id).ts = recent.ts := by
  refine run_induction (fun inputs _ this => ∀ id slot, this.queryTable.Live id slot →
    ∃ recent, lastAsked (this.queryAt id).key inputs = some recent ∧
      (this.queryAt id).ts = recent.ts) nofun
    (fun inputs input this events after earlier _ handled known id slot live => ?_) reached id
      slot live
  have kept := (Kept.run earlier).tick input.p.tvSec
  have keyed := (Keyed.run earlier).tick input.p.tvSec
  have objects := tick_queryAt input.p.tvSec this
  rcases (handled.live_query kept).mp live with old | ⟨query, absent, rfl, -⟩
  · have same := handled.queryAt kept (kept.queries.live_lt old)
    by_cases again : input.p.dnsQuery = 0 ∧ (this.tick input.p.tvSec).findQuery input.p = some id
    · rw [if_pos again] at same
      have own := (findQuery_eq_some again.2).2
      rw [same, lastAsked_snoc, own, if_pos ⟨again.1, rfl⟩]
      exact ⟨input.p, rfl, rfl⟩
    · -- a query packet with the key of this query would have found it
      rw [if_neg again] at same
      have foreign : ¬ Asks ((this.tick input.p.tvSec).queryAt id).key input := by
        rintro ⟨query, own⟩
        refine again ⟨query, ?_⟩
        rw [findQuery, own]
        exact keyed.get_query old
      rw [same, lastAsked_snoc, if_neg foreign, objects]
      exact known id slot (live_of_tick old)
  · rcases handled.built kept with rest | ⟨-, -, -, -, -, object⟩
    · exact (Nat.ne_of_lt ((handled.kept kept).queries.live_lt live) rest.symm).elim
    · rw [object, newQuery_eq, lastAsked_snoc, if_pos ⟨query, rfl⟩]
      exact ⟨input.p, rfl, rfl⟩

/-- What is known of the query that a packet finds. -/
theorem findQuery_origin {p : Property} (reached : (ModDns.new.run inputs).result = some this)
    (found : (this.tick p.tvSec).findQuery p = some id) : ∃ call recent,
      BuiltBy id inputs call ∧ lastAsked (keyOf p) inputs = some recent ∧
        (this.tick p.tvSec).queryAt id = { newQuery call.memory call.p with
          ts := recent.ts
          hasReply := call.memory.hasReply || decide (0 < matched id inputs) } := by
  obtain ⟨⟨slot, live⟩, own⟩ := findQuery_eq_some found
  have objects : (this.tick p.tvSec).queryAt id = this.queryAt id :=
    congrFun (tick_queryAt p.tvSec this) id
  rw [objects] at own ⊢
  have earlier := live_of_tick live
  obtain ⟨call, origin⟩ := Origin.run reached ((Kept.run reached).queries.live_lt earlier)
  obtain ⟨recent, asked, time⟩ := lastAsked_run reached earlier
  rw [own] at asked
  refine ⟨call, recent, origin.builtBy, asked, ?_⟩
  rw [← time]
  exact origin.query

end ModDns

end Devourer
