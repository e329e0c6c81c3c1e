import Devourer.Modules.Dns.Origin

/-! # Queries without a question

A query takes as many questions as its packet has, perhaps none, and none are added later.
Yet a response to a query is reported under its first question, and so is by the destructor
a query without a reply. Both are safe as far as the packets that built the queries asked
something (`questions_read_iff`).
-/

namespace Devourer

namespace ModDns

/-- The first question is read of no query that has none: not for a response, and not by the
destructor, which does not return after that. -/
structure QuestionsRead (inputs : List Input) : Prop where
  responses : ∀ calls input, calls ++ [input] <+: inputs → ∀ this,
    (ModDns.new.run calls).result = some this → input.p.dnsQuery ≠ 0 → ∀ id,
      (this.tick input.p.tvSec).findQuery input.p = some id →
        ((this.tick input.p.tvSec).queryAt id).name ≠ []
  flushed : ∀ this, (ModDns.new.run inputs).result = some this → this.destroy.result ≠ none

/-- If the packet is a response that belongs to a live query, the packet that built it asked
something. -/
def FindsAsked (calls : List Input) (this : ModDns) (input : Input) : Prop :=
  input.p.dnsQuery ≠ 0 → ∀ id call, (this.tick input.p.tvSec).findQuery input.p = some id →
    BuiltBy id calls call → call.p.questions ≠ []

variable {inputs calls : List Input} {input call : Input} {this : ModDns} {id : ℕ}

/-! ## The destructor -/

/-- The loop returns when all queries that it reports have a question. -/
theorem flushQuery_returns {fuel : ℕ} (enough : this.queryTable.table.exp.length < fuel) :
    (this.flushQuery fuel).result ≠ none ↔ ∀ id ∈ this.queryTable.table.exp,
      (this.queryAt id).hasReply = false → (this.queryAt id).name ≠ [] := by
  induction fuel generalizing this with
  | zero => exact (Nat.not_lt_zero _ enough).elim
  | succ fuel ih =>
      cases exp : this.queryTable.table.exp with
      | nil =>
          rw [flushQuery_of_nil fuel exp]
          exact iff_of_true (Option.some_ne_none _) (List.forall_mem_nil _)
      | cons id rest =>
          rw [exp] at enough
          have later := @ih (this.popped rest) (Nat.lt_of_succ_lt_succ enough)
          rw [List.forall_mem_cons]
          cases reply : (this.queryAt id).hasReply with
          | true =>
              rw [flushQuery_of_hasReply fuel exp reply]
              exact later.trans (and_iff_right fun silent => Bool.noConfusion silent).symm
          | false =>
              rw [flushQuery_of_not_hasReply fuel exp reply]
              cases named : (this.queryAt id).qName 0 with
              | none =>
                  have unasked := qName_eq_none.mp named
                  exact iff_of_false (fun returns => returns rfl) fun both => both.1 rfl unasked
              | some qName =>
                  have asks : (this.queryAt id).name ≠ [] := fun unasked =>
                    Option.some_ne_none qName (named.symm.trans (qName_eq_none.mpr unasked))
                  rw [Exec.ofOption_some_bind, Exec.emit_bind]
                  exact later.trans (and_iff_right fun _ => asks).symm

/-- The destructor returns when all queries without a reply have a question. -/
theorem destroy_returns (kept : this.Kept) : this.destroy.result ≠ none ↔
    ∀ id ∈ this.queryTable.table.nodes, (this.queryAt id).hasReply = false →
      (this.queryAt id).name ≠ [] := by
  have purged := @flushQuery_returns
    { this with queryTable := { this.queryTable with table := this.queryTable.table.purge } } _
    (Nat.lt_succ_self _)
  simp only [kept.queries.table.purge_exp.mem_iff] at purged
  exact purged

/-! ## Runs -/

/-- In a run that returns, no response was matched to a query without a question. -/
theorem unasked_unmatched (reached : (ModDns.new.run inputs).result = some this)
    (known : id < this.queryTable.built) (unasked : (this.queryAt id).name = []) :
    matched id inputs = 0 := by
  refine run_induction (fun inputs _ this => ∀ id < this.queryTable.built,
    (this.queryAt id).name = [] → matched id inputs = 0) nofun
    (fun inputs input this events after earlier _ handled unmatched id known unasked => ?_)
    reached id known unasked
  have kept := (Kept.run earlier).tick input.p.tvSec
  obtain ⟨built, objects, -⟩ := tick_queries input.p.tvSec this
  have missed : matches? id this input = 0 := by
    apply if_neg
    rintro ⟨response, found⟩
    obtain ⟨slot, live⟩ := (findQuery_eq_some found).1
    have name := (handled.follows kept (kept.queries.live_lt live)).2.1
    cases handled with
    | asked query => exact response query
    | askedAgain _ query => exact response query
    | answered other qName _ _ _ found' named =>
        cases found.symm.trans found'
        rw [unasked] at name
        exact Option.some_ne_none qName (named.symm.trans (qName_eq_none.mpr name.symm))
    | missed _ absent => exact Option.some_ne_none id (found.symm.trans absent)
  rw [matched_snoc input earlier, missed, Nat.add_zero]
  by_cases old : id < this.queryTable.built
  · apply unmatched id old
    rw [← unasked, (handled.follows kept (built ▸ old)).2.1, queryAt, queryAt, objects]
  · exact matched_unborn earlier (Nat.not_lt.mp old)

/-- The questions of a query are those of the packet that built it. -/
theorem name_eq_nil_iff (reached : (ModDns.new.run inputs).result = some this)
    (builtBy : BuiltBy id inputs call) :
    (this.queryAt id).name = [] ↔ call.p.questions = [] := by
  obtain ⟨call', origin⟩ := Origin.run reached (builtBy.known reached)
  obtain rfl := builtBy.unique origin.builtBy reached
  rw [origin.query, newQuery_eq, List.map_eq_nil_iff]

/-- The destructor passes by a query without a question only when its memory happened to
hold a reply. -/
theorem destroy_returns_iff (reached : (ModDns.new.run inputs).result = some this) :
    this.destroy.result ≠ none ↔ ∀ id call, BuiltBy id inputs call → call.p.questions = [] →
      call.memory.hasReply = true := by
  rw [destroy_returns (Kept.run reached)]
  constructor
  · intro named id call builtBy unasked
    have known := builtBy.known reached
    have none := (name_eq_nil_iff reached builtBy).mpr unasked
    obtain ⟨call', origin⟩ := Origin.run reached known
    obtain rfl := builtBy.unique origin.builtBy reached
    have flag := congrArg Query.hasReply origin.query
    rw [unasked_unmatched reached known none] at flag
    by_contra silent
    rw [Bool.not_eq_true] at silent
    refine named id origin.held ?_ none
    rw [flag, silent]
    rfl
  · intro flagged id held silent none
    obtain ⟨call, origin⟩ := Origin.run reached ((Kept.run reached).queries.below id held)
    have unasked := (name_eq_nil_iff reached origin.builtBy).mp none
    have flag := congrArg Query.hasReply origin.query
    rw [silent, flagged id call origin.builtBy unasked, Bool.true_or] at flag
    cases flag

/-- **When no read runs past the questions.** The first question is only read of queries that
have one, in all calls and in the destructor after them, if and only if each response
belongs to a query that was built by a packet with a question, and a query that was not
was built in memory that happened to say that it has a reply. -/
theorem questions_read_iff (inputs : List Input) : QuestionsRead inputs ↔
    (∀ calls input, calls ++ [input] <+: inputs → ∀ this,
      (ModDns.new.run calls).result = some this → FindsAsked calls this input) ∧
    ∀ this, (ModDns.new.run inputs).result = some this → ∀ id call,
      BuiltBy id inputs call → call.p.questions = [] → call.memory.hasReply = true := by
  have objects : ∀ (this : ModDns) (input : Input) (id : ℕ),
      (this.tick input.p.tvSec).queryAt id = this.queryAt id := fun this input id =>
    congrFun (tick_queryAt input.p.tvSec this) id
  constructor
  · rintro ⟨responses, flushed⟩
    refine ⟨fun calls input prior this reached response id call found builtBy unasked => ?_,
      fun this reached => (destroy_returns_iff reached).mp (flushed this reached)⟩
    apply responses calls input prior this reached response id found
    rw [objects]
    exact (name_eq_nil_iff reached builtBy).mpr unasked
  · rintro ⟨finds, flagged⟩
    refine ⟨fun calls input prior this reached response id found none => ?_,
      fun this reached => (destroy_returns_iff reached).mpr (flagged this reached)⟩
    rw [objects] at none
    obtain ⟨call, -, builtBy, -, -⟩ := findQuery_origin reached found
    exact finds calls input prior this reached response id call found builtBy
      ((name_eq_nil_iff reached builtBy).mp none)

/-- A query that asks nothing. -/
def emptyQuery : Property := { sampleQuery 1 with questions := [] }

/-- **A response to it reads a question that is not there**, and so does the destructor when no
response comes. -/
theorem emptyQuery_not_read :
    ¬ QuestionsRead [⟨blank, emptyQuery⟩, ⟨blank, sampleReply 2⟩] ∧
      ¬ QuestionsRead [⟨blank, emptyQuery⟩] := by
  constructor
  · intro safe
    have computed : (ModDns.new.run [⟨blank, emptyQuery⟩]).result.map (fun this => decide
        ((this.tick 2).findQuery (sampleReply 2) = some 0 ∧ ((this.tick 2).queryAt 0).name = [])) =
          some true := by
      decide +kernel
    obtain ⟨this, reached, facts⟩ := Option.map_eq_some_iff.mp computed
    obtain ⟨found, unasked⟩ := of_decide_eq_true facts
    exact safe.responses [⟨blank, emptyQuery⟩] ⟨blank, sampleReply 2⟩ (List.prefix_refl _) this
      reached (by decide) 0 found unasked
  · intro safe
    have computed : (ModDns.new.run [⟨blank, emptyQuery⟩]).result.map (fun this =>
        this.destroy.result.isNone) = some true := by
      decide +kernel
    obtain ⟨this, reached, aborted⟩ := Option.map_eq_some_iff.mp computed
    exact safe.flushed this reached (Option.isNone_iff_eq_none.mp aborted)

end ModDns

end Devourer
