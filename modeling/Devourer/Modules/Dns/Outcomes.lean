import Devourer.Modules.Dns.Step

/-! # The outcomes of DNS transactions

Over the life of the module a query should be reported once: as a success if a
response was matched to it, and as a timeout by the destructor otherwise. A response
that is matched again reports its success again, and the destructor trusts a flag that
the constructor of a query leaves as the memory happened to hold it. `outcome_iff` says
for which queries all is well.
-/

namespace Devourer

namespace ModDns

/-- The whole life of the module after its construction. -/
def life (inputs : List Input) (start : ModDns) : Exec DnsEvent ModDns :=
  start.run inputs >>= destroy

/-- Is this a report of the query as answered? -/
def isSuccess (id : ℕ) : DnsEvent → Bool
  | .success query _ _ => query = id
  | _ => false

/-- Is this a report of the query as unanswered? -/
def isTimeout (id : ℕ) : DnsEvent → Bool
  | .timeout query _ _ => query = id
  | _ => false

def successes (id : ℕ) (events : List DnsEvent) : ℕ := events.countP (isSuccess id)

def timeouts (id : ℕ) (events : List DnsEvent) : ℕ := events.countP (isTimeout id)

/-- Does the call match a response to the query? -/
def matches? (id : ℕ) (this : ModDns) (input : Input) : ℕ :=
  if input.p.dnsQuery ≠ 0 ∧ (this.tick input.p.tvSec).findQuery input.p = some id then 1 else 0

/-- How many responses the calls match to the query. -/
def matched (id : ℕ) (inputs : List Input) : ℕ :=
  Exec.total (fun this input => this.recv input.memory input.p) (matches? id) ModDns.new inputs

/-- The query is reported once, as a success if a response was matched to it and as a
timeout otherwise. -/
def OneOutcome (id matched : ℕ) (events : List DnsEvent) : Prop :=
  (0 < matched → successes id events = 1 ∧ timeouts id events = 0) ∧
    (matched = 0 → successes id events = 0 ∧ timeouts id events = 1)

instance (id matched : ℕ) (events : List DnsEvent) : Decidable (OneOutcome id matched events) :=
  instDecidableAnd

/-- The call built the query. -/
def BuiltBy (id : ℕ) (inputs : List Input) (call : Input) : Prop :=
  ∃ front back before, inputs = front ++ call :: back ∧
    (ModDns.new.run front).result = some before ∧ before.queryTable.built = id ∧
    call.p.dnsQuery = 0 ∧ (before.tick call.p.tvSec).findQuery call.p = none

/-! ## The destructor -/

/-- What the destructor reports about a query. -/
def closing (id : ℕ) (query : Query) : List DnsEvent :=
  if query.hasReply = false then
    (query.qName 0).elim [] fun qName => [.timeout id query.key (timeoutMessage query qName)]
  else []

/-- The module when the loop has taken a query. -/
def popped (this : ModDns) (rest : List ℕ) : ModDns :=
  { this with queryTable := { this.queryTable with
      table := { this.queryTable.table with exp := rest } } }

theorem flushQuery_of_nil (fuel : ℕ) {this : ModDns} (exp : this.queryTable.table.exp = []) :
    this.flushQuery (fuel + 1) = pure this := by
  simp only [flushQuery, Pool.pop, Table.pop, exp]

/-- A query with a reply is popped silently. -/
theorem flushQuery_of_hasReply (fuel : ℕ) {this : ModDns} {id : ℕ} {rest : List ℕ}
    (exp : this.queryTable.table.exp = id :: rest) (reply : (this.queryAt id).hasReply = true) :
    this.flushQuery (fuel + 1) = (this.popped rest).flushQuery fuel := by
  rw [queryAt] at reply
  simp only [flushQuery, Pool.pop, Table.pop, exp, reply, Bool.true_eq_false, if_false]
  rfl

theorem flushQuery_of_not_hasReply (fuel : ℕ) {this : ModDns} {id : ℕ} {rest : List ℕ}
    (exp : this.queryTable.table.exp = id :: rest) (reply : (this.queryAt id).hasReply = false) :
    this.flushQuery (fuel + 1) = Exec.ofOption ((this.queryAt id).qName 0) >>= fun qName =>
      Exec.emit (.timeout id (this.queryAt id).key (timeoutMessage (this.queryAt id) qName)) >>=
        fun _ => (this.popped rest).flushQuery fuel := by
  rw [queryAt] at reply
  simp only [flushQuery, Pool.pop, Table.pop, exp, reply, if_true]
  rfl

/-- The loop pops the expired queries and reports those without a reply. -/
theorem flushQuery_eq {fuel : ℕ} {this : ModDns} (enough : this.queryTable.table.exp.length < fuel)
    (named : ∀ id ∈ this.queryTable.table.exp, (this.queryAt id).name ≠ []) :
    ∃ after, this.flushQuery fuel =
      ⟨this.queryTable.table.exp.flatMap fun id => closing id (this.queryAt id), some after⟩ := by
  induction fuel generalizing this with
  | zero => exact (Nat.not_lt_zero _ enough).elim
  | succ fuel ih =>
      cases exp : this.queryTable.table.exp with
      | nil => exact ⟨this, flushQuery_of_nil fuel exp⟩
      | cons id rest =>
          rw [exp] at enough named
          obtain ⟨here, later⟩ := List.forall_mem_cons.mp named
          obtain ⟨after, same⟩ := @ih (this.popped rest) (Nat.lt_of_succ_lt_succ enough) later
          obtain ⟨qName, found⟩ : ∃ qName, (this.queryAt id).qName 0 = some qName :=
            Option.ne_none_iff_exists'.mp fun none => here (qName_eq_none.mp none)
          refine ⟨after, ?_⟩
          rw [List.flatMap_cons, closing]
          cases reply : (this.queryAt id).hasReply with
          | false =>
              rw [flushQuery_of_not_hasReply fuel exp reply, if_pos rfl, found,
                Exec.ofOption_some_bind, Exec.emit_bind, same]
              rfl
          | true =>
              rw [flushQuery_of_hasReply fuel exp reply, if_neg (by decide)]
              exact same

theorem closing_of_name {query : Query} (named : query.name ≠ []) :
    ∃ msg, ∀ id, closing id query =
      if query.hasReply = false then [.timeout id query.key msg] else [] := by
  obtain ⟨qName, found⟩ : ∃ qName, query.qName 0 = some qName :=
    Option.ne_none_iff_exists'.mp fun none => named (qName_eq_none.mp none)
  refine ⟨timeoutMessage query qName, fun id => ?_⟩
  unfold closing
  rw [found]
  rfl

/-- The report about a query is a timeout of this query, if it has no reply. -/
theorem outcomes_closing {query : Query} (named : query.name ≠ []) (id other : ℕ) :
    successes id (closing other query) = 0 ∧ timeouts id (closing other query) =
      if other = id ∧ query.hasReply = false then 1 else 0 := by
  obtain ⟨msg, same⟩ := closing_of_name named
  rw [same]
  by_cases flag : query.hasReply = false
  · simp [flag, successes, timeouts, isSuccess, isTimeout, List.countP_cons]
  · simp [flag, successes, timeouts]

/-- The destructor reports the queries it holds that have no reply, each once. -/
theorem destroy_spec {this : ModDns} (kept : this.Kept)
    (named : ∀ id ∈ this.queryTable.table.nodes, (this.queryAt id).name ≠ []) :
    ∃ events after, this.destroy = ⟨events, some after⟩ ∧ ∀ id, successes id events = 0 ∧
      timeouts id events =
        if id ∈ this.queryTable.table.nodes ∧ (this.queryAt id).hasReply = false then 1 else 0 := by
  have purged := kept.queries.table.purge_exp
  have nodup := purged.nodup_iff.mpr kept.queries.table.nodup
  have held : ∀ id ∈ this.queryTable.table.purge.exp, (this.queryAt id).name ≠ [] :=
    fun id member => named id (purged.mem_iff.mp member)
  obtain ⟨after, same⟩ := @flushQuery_eq _
    { this with queryTable := { this.queryTable with table := this.queryTable.table.purge } }
    (Nat.lt_succ_self _) held
  refine ⟨_, after, same, fun id => ⟨?_, ?_⟩⟩
  · apply List.countP_eq_zero.mpr
    intro event member
    obtain ⟨other, inside, told⟩ := List.mem_flatMap.mp member
    exact List.countP_eq_zero.mp (outcomes_closing (held other inside) id other).1 event told
  · have own : ∀ other ∈ this.queryTable.table.purge.exp, other ≠ id →
        timeouts id (closing other (this.queryAt other)) = 0 := by
      intro other inside different
      rw [(outcomes_closing (held other inside) id other).2, if_neg fun both => different both.1]
    refine (countP_flatMap_of_nodup nodup _ own).trans ?_
    rw [ite_and]
    simp only [purged.mem_iff]
    split
    · rename_i inside
      exact (outcomes_closing (named id inside) id id).2.trans
        (if_congr (and_iff_right rfl) rfl rfl)
    · rfl

/-! ## One call -/

variable {memory : Memory} {p : Property} {this after : ModDns} {events : List DnsEvent}

/-- Answers are no outcome. -/
theorem outcomes_logs {logs : List DnsEvent} (only : ∀ event ∈ logs, ∃ msg, event = .log msg)
    (id : ℕ) : successes id logs = 0 ∧ timeouts id logs = 0 := by
  constructor
  · apply List.countP_eq_zero.mpr
    intro event member
    obtain ⟨msg, rfl⟩ := only event member
    nofun
  · apply List.countP_eq_zero.mpr
    intro event member
    obtain ⟨msg, rfl⟩ := only event member
    nofun

/-- **Handling a packet** reports the query that a response is matched to. -/
theorem Handled.outcomes (handled : Handled memory p this events after) (id : ℕ) :
    successes id events = (if p.dnsQuery ≠ 0 ∧ this.findQuery p = some id then 1 else 0) ∧
      timeouts id events = 0 := by
  cases handled with
  | asked query absent => exact ⟨(if_neg fun both => both.1 query).symm, rfl⟩
  | askedAgain other query found => exact ⟨(if_neg fun both => both.1 query).symm, rfl⟩
  | answered other qName logs _ response found named only remembered =>
      obtain ⟨noSuccess, noTimeout⟩ := outcomes_logs only id
      unfold successes at noSuccess ⊢
      unfold timeouts at noTimeout ⊢
      rw [List.countP_cons, List.countP_cons, noSuccess, noTimeout, found]
      simp [isSuccess, isTimeout, response]
  | missed response absent =>
      exact ⟨(if_neg fun both => Option.some_ne_none id (both.2.symm.trans absent)).symm, rfl⟩

/-- It keeps the queries that were built before, and marks the one matched. -/
theorem Handled.follows (handled : Handled memory p this events after) (kept : this.Kept) {id : ℕ}
    (known : id < this.queryTable.built) :
    (id ∈ this.queryTable.table.nodes → id ∈ after.queryTable.table.nodes) ∧
      (after.queryAt id).name = (this.queryAt id).name ∧
      (after.queryAt id).hasReply = ((this.queryAt id).hasReply ||
        decide (p.dnsQuery ≠ 0 ∧ this.findQuery p = some id)) := by
  cases handled with
  | asked query absent =>
      rw [decide_eq_false fun both => both.1 query, Bool.or_false]
      refine ⟨fun held => (Pool.mem_nodes_put_iff ..).mpr (.inl held), ?_, ?_⟩
      · exact congrArg Query.name (Pool.build_object_of_lt known _)
      · exact congrArg Query.hasReply (Pool.build_object_of_lt known _)
  | askedAgain other query found =>
      rw [decide_eq_false fun both => both.1 query, Bool.or_false]
      refine ⟨fun held => held, ?_, ?_⟩
      · exact Pool.modify_read Query.name (Query.setLastTs p.ts) (fun _ => rfl) other id
      · exact Pool.modify_read Query.hasReply (Query.setLastTs p.ts) (fun _ => rfl) other id
  | answered other qName logs _ response found named only remembered =>
      rw [queryAt, kept.answered_queryTable remembered, found]
      refine ⟨fun held => held, ?_, ?_⟩
      · exact Pool.modify_read Query.name (Query.setHasReply true) (fun _ => rfl) other id
      · by_cases self : other = id
        · rw [self, Pool.modify_object_self, decide_eq_true ⟨response, rfl⟩, Bool.or_true]
          rfl
        · rw [Pool.modify_object_of_ne (Ne.symm self),
            decide_eq_false fun both => self (Option.some.inj both.2), Bool.or_false]
  | missed response absent =>
      rw [decide_eq_false fun both => Option.some_ne_none id (both.2.symm.trans absent),
        Bool.or_false]
      exact ⟨fun held => held, rfl, rfl⟩

/-- The clock moves queries to the expired list, and nothing else. -/
theorem tick_queries (ts : ℤ) (this : ModDns) :
    (this.tick ts).queryTable.built = this.queryTable.built ∧
    (this.tick ts).queryTable.object = this.queryTable.object ∧
    ∀ id, id ∈ (this.tick ts).queryTable.table.nodes ↔ id ∈ this.queryTable.table.nodes := by
  by_cases progress : this.Progresses ts
  · rw [tick_of_progresses progress]
    exact ⟨rfl, rfl, fun id => (Pool.prog_nodes _).mem_iff⟩
  · rw [tick_of_not_progresses progress]
    exact ⟨rfl, rfl, fun _ => Iff.rfl⟩

theorem tick_queryAt (ts : ℤ) (this : ModDns) : (this.tick ts).queryAt = this.queryAt :=
  (tick_queries ts this).2.1

/-- A packet builds a query when it is one without a match. -/
theorem Handled.built (handled : Handled memory p this events after) (kept : this.Kept) :
    after.queryTable.built = this.queryTable.built ∨
      after.queryTable.built = this.queryTable.built + 1 ∧ events = [] ∧ p.dnsQuery = 0 ∧
        this.findQuery p = none ∧ this.queryTable.built ∈ after.queryTable.table.nodes ∧
        after.queryAt this.queryTable.built = newQuery memory p := by
  cases handled with
  | asked query absent =>
      refine .inr ⟨rfl, rfl, query, absent, ?_, Pool.build_object_self _⟩
      refine (Pool.mem_nodes_put_iff ..).mpr (.inr ⟨?_, rfl⟩)
      rw [Pool.build_table, kept.querySize]
      decide
  | askedAgain => exact .inl rfl
  | answered id _ _ _ _ _ _ _ remembered =>
      rw [kept.answered_queryTable remembered]
      exact .inl rfl
  | missed => exact .inl rfl

/-! ## Runs -/

/-- What is known of a query between two calls. -/
structure Tracked (id : ℕ) (inputs : List Input) (events : List DnsEvent) (this : ModDns) :
    Prop where
  held : id ∈ this.queryTable.table.nodes
  named : (this.queryAt id).name ≠ []
  flag : ∃ call, BuiltBy id inputs call ∧ (this.queryAt id).hasReply =
    (call.memory.hasReply || decide (0 < matched id inputs))
  success : successes id events = matched id inputs
  timeout : timeouts id events = 0

/-- Every query built so far is held, and reported as often as it was matched. -/
structure Answering (inputs : List Input) (events : List DnsEvent) (this : ModDns) : Prop where
  queries : ∀ id < this.queryTable.built, Tracked id inputs events this
  unborn : ∀ id, this.queryTable.built ≤ id →
    successes id events = 0 ∧ timeouts id events = 0 ∧ matched id inputs = 0

theorem successes_append (id : ℕ) (first second : List DnsEvent) :
    successes id (first ++ second) = successes id first + successes id second :=
  List.countP_append ..

theorem timeouts_append (id : ℕ) (first second : List DnsEvent) :
    timeouts id (first ++ second) = timeouts id first + timeouts id second :=
  List.countP_append ..

theorem matched_snoc {inputs : List Input} (input : Input)
    (reached : (ModDns.new.run inputs).result = some this) (id : ℕ) :
    matched id (inputs ++ [input]) = matched id inputs + matches? id this input :=
  Exec.total_snoc (matches? id) input reached

/-- A query is matched when it was before, or by the last call. -/
theorem matched_pos_snoc {inputs : List Input} (input : Input)
    (reached : (ModDns.new.run inputs).result = some this) (id : ℕ) :
    decide (0 < matched id (inputs ++ [input])) = (decide (0 < matched id inputs) ||
      decide (input.p.dnsQuery ≠ 0 ∧ (this.tick input.p.tvSec).findQuery input.p = some id)) := by
  have here : decide (0 < matches? id this input) = decide (input.p.dnsQuery ≠ 0 ∧
      (this.tick input.p.tvSec).findQuery input.p = some id) := by
    unfold matches?
    split <;> simp_all
  rw [matched_snoc input reached, ← here]
  simp only [Nat.add_pos_iff_pos_or_pos, Bool.decide_or]

theorem BuiltBy.snoc {id : ℕ} {inputs : List Input} {call : Input}
    (builtBy : BuiltBy id inputs call) (input : Input) : BuiltBy id (inputs ++ [input]) call := by
  obtain ⟨front, back, before, rfl, facts⟩ := builtBy
  exact ⟨front, back ++ [input], before, by simp, facts⟩

/-- A call keeps track of a query that was built before. -/
theorem Tracked.recv {id : ℕ} {inputs : List Input} {input : Input} {told events : List DnsEvent}
    (tracked : Tracked id inputs told this) (known : id < this.queryTable.built)
    (reached : (ModDns.new.run inputs).result = some this)
    (handled : Handled input.memory input.p (this.tick input.p.tvSec) events after) :
    Tracked id (inputs ++ [input]) (told ++ events) after := by
  have kept := (Kept.run reached).tick input.p.tvSec
  obtain ⟨built, objects, nodes⟩ := tick_queries input.p.tvSec this
  obtain ⟨success, timeout⟩ := handled.outcomes id
  obtain ⟨stays, name, marked⟩ := handled.follows kept (built ▸ known)
  obtain ⟨call, builtBy, flag⟩ := tracked.flag
  refine ⟨stays ((nodes id).mpr tracked.held), ?_, ⟨call, builtBy.snoc input, ?_⟩, ?_, ?_⟩
  · rw [name, queryAt, objects]
    exact tracked.named
  · rw [marked, queryAt, objects, flag, matched_pos_snoc input reached, Bool.or_assoc]
  · rw [successes_append, tracked.success, matched_snoc input reached, success]
    rfl
  · rw [timeouts_append, tracked.timeout, timeout]

/-- Nothing was told of a query that is not built yet, and a call tells nothing of it. -/
theorem Answering.unborn_recv {inputs : List Input} {input : Input} {told events : List DnsEvent}
    (answering : Answering inputs told this)
    (reached : (ModDns.new.run inputs).result = some this)
    (handled : Handled input.memory input.p (this.tick input.p.tvSec) events after) (id : ℕ)
    (late : this.queryTable.built ≤ id) :
    successes id (told ++ events) = 0 ∧ timeouts id (told ++ events) = 0 ∧
      matched id (inputs ++ [input]) = 0 := by
  have kept := (Kept.run reached).tick input.p.tvSec
  obtain ⟨built, -, -⟩ := tick_queries input.p.tvSec this
  obtain ⟨noSuccess, noTimeout, noMatch⟩ := answering.unborn id late
  have success : successes id events = matches? id this input := (handled.outcomes id).1
  have unmatched : matches? id this input = 0 := by
    apply if_neg
    rintro ⟨-, found⟩
    obtain ⟨slot, live⟩ := (findQuery_eq_some found).1
    exact Nat.not_lt.mpr late (built ▸ kept.queries.live_lt live)
  rw [successes_append, timeouts_append, matched_snoc input reached, noSuccess, noTimeout,
    noMatch, success, (handled.outcomes id).2, unmatched]
  exact ⟨rfl, rfl, rfl⟩

/-- **One call** keeps track of the queries. -/
theorem Answering.recv {inputs : List Input} {input : Input}
    (answering : Answering inputs (ModDns.new.run inputs).events this)
    (asks : input.p.dnsQuery = 0 → input.p.questions ≠ [])
    (reached : (ModDns.new.run inputs).result = some this)
    (returned : (this.recv input.memory input.p).result = some after) :
    Answering (inputs ++ [input]) (ModDns.new.run (inputs ++ [input])).events after := by
  have told : (ModDns.new.run (inputs ++ [input])).events =
      (ModDns.new.run inputs).events ++ (this.recv input.memory input.p).events :=
    Exec.run_snoc_events input reached
  obtain ⟨events, same, handled⟩ := handled_of_recv returned
  rw [told, same]
  have old := fun id known => (answering.queries id known).recv known reached handled
  have unborn := answering.unborn_recv reached handled
  obtain ⟨built, objects, -⟩ := tick_queries input.p.tvSec this
  rcases handled.built ((Kept.run reached).tick input.p.tvSec) with rest |
    ⟨grown, -, query, absent, held, object⟩
  · rw [built] at rest
    exact ⟨rest ▸ old, rest ▸ unborn⟩
  · rw [built] at grown held object
    refine ⟨fun id known => ?_, fun id late => unborn id (by omega)⟩
    rw [grown] at known
    rcases Nat.lt_succ_iff_lt_or_eq.mp known with earlier | rfl
    · exact old id earlier
    · obtain ⟨noSuccess, noTimeout, noMatch⟩ := unborn _ (Nat.le_refl _)
      refine ⟨held, ?_, ⟨input, ?_, ?_⟩, noSuccess.trans noMatch.symm, noTimeout⟩
      · rw [object, newQuery_eq]
        exact fun none => asks query (List.map_eq_nil_iff.mp none)
      · exact ⟨inputs, [], this, rfl, reached, rfl, query, absent⟩
      · rw [object, newQuery_eq, noMatch]
        exact (Bool.or_false _).symm

theorem Answering.run {inputs : List Input}
    (asks : ∀ input ∈ inputs, input.p.dnsQuery = 0 → input.p.questions ≠ [])
    (reached : (ModDns.new.run inputs).result = some this) :
    Answering inputs (ModDns.new.run inputs).events this := by
  induction inputs using List.reverseRecOn generalizing this with
  | nil =>
      cases reached
      exact ⟨nofun, fun _ _ => ⟨rfl, rfl, rfl⟩⟩
  | append_singleton inputs input ih =>
      obtain ⟨before, earlier, returned⟩ := Exec.run_snoc_result.mp reached
      exact (ih (fun other member => asks other (List.mem_append_left _ member)) earlier).recv
        (asks input (List.mem_append_right _ List.mem_cons_self)) earlier returned

/-- **Which queries have one outcome.** In a run in which every query asks something, the
destructor returns, and a query has exactly one outcome over the life of the module, of
the right kind, if and only if at most one response was matched to it and, in case none
was, the memory that it was built in happened to say that it has no reply. -/
theorem outcome_iff (inputs : List Input)
    (asks : ∀ input ∈ inputs, input.p.dnsQuery = 0 → input.p.questions ≠ []) (this : ModDns)
    (reached : (ModDns.new.run inputs).result = some this) :
    (ModDns.new.life inputs).result.isSome ∧ ∀ id < this.queryTable.built,
      ∃ call, BuiltBy id inputs call ∧
        (OneOutcome id (matched id inputs) (ModDns.new.life inputs).events ↔
          matched id inputs ≤ 1 ∧ (matched id inputs = 0 → call.memory.hasReply = false)) := by
  have answering := Answering.run asks reached
  have kept := Kept.run reached
  obtain ⟨closed, after, destroyed, outcomes⟩ := destroy_spec kept fun id member =>
    (answering.queries id (kept.queries.below id member)).named
  have life : ModDns.new.life inputs = ⟨(ModDns.new.run inputs).events ++ closed, some after⟩ := by
    unfold ModDns.life
    rw [Exec.bind_of_result reached, destroyed]
  rw [life]
  refine ⟨rfl, fun id known => ?_⟩
  obtain ⟨held, -, ⟨call, builtBy, flag⟩, success, timeout⟩ := answering.queries id known
  obtain ⟨noSuccess, expired⟩ := outcomes id
  refine ⟨call, builtBy, ?_⟩
  unfold OneOutcome
  rw [successes_append, timeouts_append, noSuccess, expired, success, timeout, flag]
  simp only [held, true_and]
  by_cases answered : 0 < matched id inputs
  · have some : matched id inputs ≠ 0 := by omega
    simp only [answered, some, decide_true, Bool.or_true, Bool.true_eq_false, if_false,
      Nat.add_zero, true_imp_iff, false_imp_iff, and_true]
    omega
  · have none : matched id inputs = 0 := by omega
    rw [none]
    cases call.memory.hasReply <;> simp

/-- A query that is never answered, in memory that says that it has a reply. -/
def silent : List Input := [⟨⟨0, 0, true⟩, sampleQuery 1⟩]

/-- A query whose response comes twice. -/
def repeated : List Input :=
  [⟨blank, sampleQuery 1⟩, ⟨blank, sampleReply 2⟩, ⟨blank, sampleReply 3⟩]

/-- **A query may have no outcome, or several.** -/
theorem silent_not_one : ¬ OneOutcome 0 (matched 0 silent) (ModDns.new.life silent).events ∧
    successes 0 (ModDns.new.life silent).events + timeouts 0 (ModDns.new.life silent).events = 0 ∧
    ¬ OneOutcome 0 (matched 0 repeated) (ModDns.new.life repeated).events ∧
    successes 0 (ModDns.new.life repeated).events = 2 := by
  decide +kernel

/-- A query that is answered once. -/
theorem outcome_iff_sample :
    OneOutcome 0 (matched 0 [⟨blank, sampleQuery 1⟩, ⟨blank, sampleReply 2⟩])
      (ModDns.new.life [⟨blank, sampleQuery 1⟩, ⟨blank, sampleReply 2⟩]).events := by
  have computed : (ModDns.new.run [⟨blank, sampleQuery 1⟩, ⟨blank, sampleReply 2⟩]).result.map
      (fun this => this.queryTable.built) = some 1 := by
    decide +kernel
  obtain ⟨this, reached, one⟩ := Option.map_eq_some_iff.mp computed
  obtain ⟨call, -, exact⟩ := (outcome_iff _ (by decide) this reached).2 0 (by omega)
  have once : matched 0 [⟨blank, sampleQuery 1⟩, ⟨blank, sampleReply 2⟩] = 1 := by decide +kernel
  exact exact.mpr ⟨Nat.le_of_eq once, fun none => absurd (once.symm.trans none) (by decide)⟩

end ModDns

end Devourer
