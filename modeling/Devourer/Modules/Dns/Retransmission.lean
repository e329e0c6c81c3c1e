import Devourer.Modules.Dns.Origin

/-! # Queries that are asked again

A query packet that finds a live query with its key changes nothing but a time of it,
and the one that is meant to stay: `set_last_ts` assigns `ts_`. What a query says of its
times (`TimesKept`) and of its first question (`NamesQuestion`) is therefore right only
where the packets with one key do not differ in this.
-/

namespace Devourer

namespace ModDns

/-- The first time of a query is that of the packet that built it, the last one that of
the last query packet with its key. -/
structure Dated (inputs : List Input) (this : ModDns) (id : ℕ) : Prop where
  first : ∃ call, BuiltBy id inputs call ∧ (this.queryAt id).ts = call.p.ts
  last : ∃ recent, lastAsked (this.queryAt id).key inputs = some recent ∧
    (this.queryAt id).lastTs = recent.ts

/-- The times of live queries are right all along, and responses are measured from the
last query packet with their key. -/
structure TimesKept (inputs : List Input) : Prop where
  dated : ∀ calls, calls <+: inputs → ∀ this, (ModDns.new.run calls).result = some this →
    ∀ id slot, this.queryTable.Live id slot → Dated calls this id
  latency : ∀ calls input, calls ++ [input] <+: inputs → ∀ this,
    (ModDns.new.run calls).result = some this → ∀ id key msg,
      .success id key msg ∈ (this.recv input.memory input.p).events →
        ∃ recent, lastAsked key calls = some recent ∧
          msg.field "latency" = some (.real (input.p.ts - recent.ts))

/-- The query packet finds a live query that was built at another time. -/
def Retransmits (calls : List Input) (this : ModDns) (input : Input) : Prop :=
  input.p.dnsQuery = 0 ∧ ∃ id call, (this.tick input.p.tvSec).findQuery input.p = some id ∧
    BuiltBy id calls call ∧ input.p.ts ≠ call.p.ts

/-- A response to a query with a question is measured without rounding. -/
def Measured (this : ModDns) (input : Input) : Prop :=
  input.p.dnsQuery ≠ 0 → ∀ id, (this.tick input.p.tvSec).findQuery input.p = some id →
    (this.queryAt id).name ≠ [] →
      Double.round (input.p.ts - (this.queryAt id).lastTs) = input.p.ts - (this.queryAt id).lastTs

/-- Every response is reported under the first question of the last query packet with
its key. -/
def NamesQuestion (inputs : List Input) : Prop :=
  ∀ calls input, calls ++ [input] <+: inputs → ∀ this,
    (ModDns.new.run calls).result = some this → ∀ id key msg,
      .success id key msg ∈ (this.recv input.memory input.p).events →
        ∃ recent question, lastAsked key calls = some recent ∧
          recent.questions.head? = some question ∧
          msg.field "q_name" = some (.text question.name)

/-- If the packet is a response that belongs to a live query, the last query packet with
its key asked first for the same name as the one that built the query. -/
def AsksSame (calls : List Input) (this : ModDns) (input : Input) : Prop :=
  input.p.dnsQuery ≠ 0 → ∀ id call recent,
    (this.tick input.p.tvSec).findQuery input.p = some id → BuiltBy id calls call →
      lastAsked (keyOf input.p) calls = some recent →
        recent.questions.head?.map Question.name = call.p.questions.head?.map Question.name

variable {inputs calls : List Input} {input : Input} {this after : ModDns} {id : ℕ}

/-! ## Times -/

/-- The two times of every live query are the same. -/
def Steady (this : ModDns) : Prop :=
  ∀ id slot, this.queryTable.Live id slot → (this.queryAt id).ts = (this.queryAt id).lastTs

/-- A query packet that finds a query comes at the time of this query. -/
def Repeats (this : ModDns) (input : Input) : Prop :=
  input.p.dnsQuery = 0 → ∀ id, (this.tick input.p.tvSec).findQuery input.p = some id →
    input.p.ts = (this.queryAt id).lastTs

/-- **One call** keeps the two times together, exactly when it does not come with another
one. -/
theorem steady_recv (reached : (ModDns.new.run calls).result = some this) (steady : this.Steady)
    (returned : (this.recv input.memory input.p).result = some after) :
    after.Steady ↔ Repeats this input := by
  have kept := (Kept.run reached).tick input.p.tvSec
  have objects := tick_queryAt input.p.tvSec this
  obtain ⟨events, same, handled⟩ := handled_of_recv returned
  constructor
  · intro steady query id found
    obtain ⟨⟨slot, live⟩, -⟩ := findQuery_eq_some found
    have same := handled.queryAt kept (kept.queries.live_lt live)
    rw [if_pos ⟨query, found⟩, objects] at same
    have times := steady id slot ((handled.live_query kept).mpr (.inl live))
    rwa [same] at times
  · intro repeats id slot live
    rcases (handled.live_query kept).mp live with old | ⟨query, absent, rfl, -⟩
    · rw [handled.queryAt kept (kept.queries.live_lt old), objects]
      by_cases again : input.p.dnsQuery = 0 ∧ (this.tick input.p.tvSec).findQuery input.p = some id
      · rw [if_pos again]
        exact repeats again.1 id again.2
      · rw [if_neg again]
        exact steady id slot (live_of_tick old)
    · rcases handled.built kept with rest | ⟨-, -, -, -, -, object⟩
      · exact (Nat.ne_of_lt ((handled.kept kept).queries.live_lt live) rest.symm).elim
      · rw [object, newQuery_eq]

/-- A packet that comes with another time than the query it finds retransmits it. -/
theorem repeats_iff (reached : (ModDns.new.run calls).result = some this) :
    Repeats this input ↔ ¬ Retransmits calls this input := by
  constructor
  · rintro repeats ⟨query, id, call, found, builtBy, late⟩
    obtain ⟨call', recent, builtBy', -, origin⟩ := findQuery_origin reached found
    obtain rfl := builtBy.unique builtBy' reached
    have time := repeats query id found
    have objects := tick_queryAt input.p.tvSec this
    rw [← objects, origin, newQuery_eq] at time
    exact late time
  · intro never query id found
    obtain ⟨call, recent, builtBy, -, origin⟩ := findQuery_origin reached found
    have objects := tick_queryAt input.p.tvSec this
    rw [← objects, origin, newQuery_eq]
    by_contra late
    exact never ⟨query, id, call, found, builtBy, late⟩

/-- The times of a query are right when they are the same. -/
theorem dated_iff (reached : (ModDns.new.run calls).result = some this) {slot : ℕ}
    (live : this.queryTable.Live id slot) :
    Dated calls this id ↔ (this.queryAt id).ts = (this.queryAt id).lastTs := by
  obtain ⟨call, origin⟩ := Origin.run reached ((Kept.run reached).queries.live_lt live)
  obtain ⟨recent, asked, time⟩ := lastAsked_run reached live
  have built : (this.queryAt id).lastTs = call.p.ts := by
    rw [origin.query, newQuery_eq]
  constructor
  · rintro ⟨⟨call', builtBy, first⟩, -⟩
    obtain rfl := builtBy.unique origin.builtBy reached
    rw [first, built]
  · intro same
    exact ⟨⟨call, origin.builtBy, same.trans built⟩, recent, asked, same.symm.trans time⟩

/-- Times in whole seconds are subtracted without rounding. -/
theorem Measured.of_whole (reached : (ModDns.new.run calls).result = some this)
    (whole : ∀ other ∈ calls ++ [input], ∃ seconds : ℤ, other.p.ts = seconds ∧
      seconds.natAbs < 2 ^ 52) : Measured this input := by
  intro _ id found _
  obtain ⟨call, recent, builtBy, -, origin⟩ := findQuery_origin reached found
  obtain ⟨now, ts, short⟩ := whole input (List.mem_append_right _ List.mem_cons_self)
  obtain ⟨asked, ts', short'⟩ := whole call (List.mem_append_left _ builtBy.mem.1)
  have lastTs : (this.queryAt id).lastTs = asked := by
    rw [← tick_queryAt input.p.tvSec this, origin, newQuery_eq, ← ts']
  rw [ts, lastTs, ← Int.cast_sub]
  exact Double.round_intCast (by omega)

theorem latency_successMessage (p : Property) (query : Query) (qName : String) :
    (successMessage p query qName).field "latency" = some (.real (since p query)) := by
  simp [successMessage]

/-- The time that the latency of a response is measured from, while the times of the queries are
the same. -/
theorem Steady.lastTs (steady : this.Steady) (reached : (ModDns.new.run calls).result = some this)
    (found : (this.tick input.p.tvSec).findQuery input.p = some id) :
    ∃ recent, lastAsked (keyOf input.p) calls = some recent ∧
      (this.queryAt id).lastTs = recent.ts := by
  obtain ⟨⟨slot, live⟩, -⟩ := findQuery_eq_some found
  obtain ⟨call, recent, -, asked, origin⟩ := findQuery_origin reached found
  have times := steady id slot (live_of_tick live)
  rw [← times, ← tick_queryAt input.p.tvSec this, origin]
  exact ⟨recent, asked, rfl⟩

/-- **The latency of a response** is right, while the times of the queries are the same, exactly
when it is not rounded. -/
theorem Steady.latency_iff (steady : this.Steady)
    (reached : (ModDns.new.run calls).result = some this) :
    (∀ id key msg, .success id key msg ∈ (this.recv input.memory input.p).events →
      ∃ recent, lastAsked key calls = some recent ∧
        msg.field "latency" = some (.real (input.p.ts - recent.ts))) ↔ Measured this input := by
  have objects : ∀ id, (this.tick input.p.tvSec).queryAt id = this.queryAt id :=
    congrFun (tick_queryAt input.p.tvSec this)
  constructor
  · intro latencies response id found asks
    rw [← objects] at asks
    obtain ⟨qName, named⟩ := Option.ne_none_iff_exists'.mp fun none => asks (qName_eq_none.mp none)
    obtain ⟨recent, asked, latency⟩ := latencies id _ _
      (success_mem_recv.mpr ⟨response, found, rfl, qName, named, rfl⟩)
    obtain ⟨recent', asked', lastTs⟩ := steady.lastTs reached found
    cases asked.symm.trans asked'
    rw [latency_successMessage, since, objects, ← lastTs] at latency
    exact Value.real.inj (Option.some.inj latency)
  · intro measured id key msg reported
    obtain ⟨response, found, rfl, qName, named, rfl⟩ := success_mem_recv.mp reported
    obtain ⟨recent, asked, lastTs⟩ := steady.lastTs reached found
    have asks : (this.queryAt id).name ≠ [] := by
      intro none
      rw [objects, Query.qName, none] at named
      cases named
    refine ⟨recent, asked, ?_⟩
    rw [latency_successMessage, since, objects, measured response id found asks, lastTs]

/-- **When the times of queries are right.** The times of all live queries are right all
along, and all latencies are measured from the last query packet, if and only if no query
packet finds a live query that was built at another time, and no latency is rounded. -/
theorem times_kept_iff (inputs : List Input) : TimesKept inputs ↔
    ∀ calls input, calls ++ [input] <+: inputs → ∀ this,
      (ModDns.new.run calls).result = some this →
        ¬ Retransmits calls this input ∧ Measured this input := by
  have steady : (∀ calls, calls <+: inputs → ∀ this,
      (ModDns.new.run calls).result = some this → this.Steady) ↔
      ∀ calls input, calls ++ [input] <+: inputs → ∀ this,
        (ModDns.new.run calls).result = some this → ∀ after,
          (this.recv input.memory input.p).result = some after → Repeats this input :=
    Exec.invariant_iff_quiet nofun fun calls this reached steady input after returned =>
      steady_recv reached steady returned
  have before : ∀ {calls : List Input} {input}, calls ++ [input] <+: inputs → calls <+: inputs :=
    fun front => (List.prefix_append _ _).trans front
  constructor
  · intro times
    have always : ∀ calls, calls <+: inputs → ∀ this,
        (ModDns.new.run calls).result = some this → this.Steady :=
      fun calls front this reached id slot live =>
        (dated_iff reached live).mp (times.dated calls front this reached id slot live)
    intro calls input front this reached
    constructor
    · rw [← repeats_iff reached]
      intro query
      obtain ⟨after, returned⟩ := recv_of_query query this input.memory
      exact steady.mp always calls input front this reached after returned query
    · exact ((always calls (before front) this reached).latency_iff reached).mp
        (times.latency calls input front this reached)
  · intro right
    have always := steady.mpr fun calls input front this reached _ _ =>
      (repeats_iff reached).mpr (right calls input front this reached).1
    constructor
    · exact fun calls front this reached id slot live =>
        (dated_iff reached live).mpr (always calls front this reached id slot live)
    · exact fun calls input front this reached =>
        ((always calls (before front) this reached).latency_iff reached).mpr
          (right calls input front this reached).2

/-- A query that is asked again after four seconds. -/
def askedAgain : List Input := [⟨blank, sampleQuery 1⟩, ⟨blank, sampleQuery 5⟩]

/-- **The two times are mixed up**, and the response a second later is reported with a
latency of five seconds. -/
theorem askedAgain_not_kept : ¬ TimesKept askedAgain ∧
    ∃ this key msg, (ModDns.new.run askedAgain).result = some this ∧
      .success 0 key msg ∈ (this.recv blank (sampleReply 6)).events ∧
      msg.field "latency" = some (.real 5) := by
  have computed : (ModDns.new.run askedAgain).result.map (fun this => decide
      (this.queryTable.table.live = [(0, 120)] ∧ (this.queryAt 0).key = ⟨1, 0⟩ ∧
        (this.queryAt 0).lastTs = 1 ∧ (this.tick 6).findQuery (sampleReply 6) = some 0 ∧
        ((this.tick 6).queryAt 0).qName 0 = some "name" ∧
        ((this.tick 6).queryAt 0).lastTs = 1)) = some true := by
    decide +kernel
  obtain ⟨this, reached, facts⟩ := Option.map_eq_some_iff.mp computed
  obtain ⟨live, key, lastTs, found, named, since⟩ := of_decide_eq_true facts
  constructor
  · intro times
    have held : this.queryTable.Live 0 120 := by
      rw [Pool.Live, live]
      exact List.mem_cons_self
    obtain ⟨recent, asked, time⟩ :=
      (times.dated askedAgain (List.prefix_refl _) this reached 0 120 held).last
    have last : lastAsked ⟨1, 0⟩ askedAgain = some (sampleQuery 5) := by decide +kernel
    rw [key, last] at asked
    cases asked
    rw [lastTs] at time
    exact absurd time (by decide)
  · refine ⟨this, _, _, reached, success_mem_recv.mpr ⟨by decide, found, rfl, _, named, rfl⟩, ?_⟩
    have late : Double.round ((sampleReply 6).ts - 1) = 5 := by decide +kernel
    refine (latency_successMessage ..).trans (congrArg (fun time => some (Value.real time)) ?_)
    exact (congrArg (fun time => Double.round ((sampleReply 6).ts - time)) since).trans late

/-! ## Questions -/

theorem qName_successMessage (p : Property) (query : Query) (qName : String) :
    (successMessage p query qName).field "q_name" = some (.text qName) := by
  simp [successMessage]

/-- The first question of a query is that of the packet that built it. -/
theorem qName_newQuery (memory : Memory) (p : Property) (ts : ℚ) (has : Bool) :
    ({ newQuery memory p with ts := ts, hasReply := has } : Query).qName 0 =
      p.questions.head?.map Question.name := by
  rw [newQuery_eq, Query.qName, List.getElem?_map, List.head?_eq_getElem?]

/-- **When responses are reported under their question.** In a run in which every query asks
something, every response is reported under the first question of the last query packet
with its key, if and only if each response that belongs to a live query comes when this
packet asked first for the same name as the one that built the query. -/
theorem names_question_iff (inputs : List Input)
    (asks : ∀ input ∈ inputs, input.p.dnsQuery = 0 → input.p.questions ≠ []) :
    NamesQuestion inputs ↔ ∀ calls input, calls ++ [input] <+: inputs → ∀ this,
      (ModDns.new.run calls).result = some this → AsksSame calls this input := by
  constructor
  · intro names calls input front this reached response id call recent found builtBy asked
    obtain ⟨call', recent', builtBy', asked', origin⟩ := findQuery_origin reached found
    obtain rfl := builtBy.unique builtBy' reached
    have first := congrArg (Query.qName 0) origin
    rw [qName_newQuery] at first
    have earlier := (List.prefix_append calls [input]).trans front
    obtain ⟨question, rest, questions⟩ := List.exists_cons_of_ne_nil
      (asks call (earlier.subset builtBy.mem.1) builtBy.mem.2)
    rw [questions] at first ⊢
    obtain ⟨recent', last, asked', told, field⟩ := names calls input front this reached id _ _
      (success_mem_recv.mpr ⟨response, found, rfl, _, first, rfl⟩)
    cases asked.symm.trans asked'
    rw [qName_successMessage] at field
    rw [told]
    injection field with field
    injection field with same
    exact congrArg some same.symm
  · intro same calls input front this reached id key msg reported
    obtain ⟨response, found, rfl, qName, named, rfl⟩ := success_mem_recv.mp reported
    obtain ⟨call, recent, builtBy, asked, origin⟩ := findQuery_origin reached found
    rw [origin, qName_newQuery] at named
    have told := same calls input front this reached response id call recent found builtBy asked
    rw [named] at told
    obtain ⟨question, first, rfl⟩ := Option.map_eq_some_iff.mp told
    exact ⟨recent, question, asked, first, qName_successMessage _ _ _⟩

/-- A query and its response, and then another query with the same key. -/
def reusedKey : List Input :=
  [⟨blank, sampleQuery 1⟩, ⟨blank, sampleReply 2⟩,
    ⟨blank, { sampleQuery 3 with questions := [⟨"other", "A"⟩] }⟩]

/-- **The response to the other query is reported under the question of the first.** -/
theorem reusedKey_not_named : (∀ input ∈ reusedKey ++ [⟨blank, sampleReply 4⟩],
      input.p.dnsQuery = 0 → input.p.questions ≠ []) ∧
    ¬ NamesQuestion (reusedKey ++ [⟨blank, sampleReply 4⟩]) := by
  refine ⟨by decide +kernel, fun names => ?_⟩
  have computed : (ModDns.new.run reusedKey).result.map (fun this => decide
      ((this.tick 4).findQuery (sampleReply 4) = some 0 ∧
        ((this.tick 4).queryAt 0).qName 0 = some "name")) = some true := by
    decide +kernel
  obtain ⟨this, reached, facts⟩ := Option.map_eq_some_iff.mp computed
  obtain ⟨found, named⟩ := of_decide_eq_true facts
  obtain ⟨recent, question, asked, first, field⟩ := names reusedKey ⟨blank, sampleReply 4⟩
    (List.prefix_refl _) this reached 0 _ _
    (success_mem_recv.mpr ⟨by decide, found, rfl, _, named, rfl⟩)
  have last : (lastAsked ⟨1, 0⟩ reusedKey).bind (fun recent => recent.questions.head?) =
      some ⟨"other", "A"⟩ := by
    decide +kernel
  change lastAsked ⟨1, 0⟩ reusedKey = some recent at asked
  rw [asked, Option.bind_some, first] at last
  cases last
  rw [qName_successMessage] at field
  exact absurd field (by decide)

/-- A query that is asked twice for the same name. -/
theorem names_question_iff_sample :
    NamesQuestion [⟨blank, sampleQuery 1⟩, ⟨blank, sampleQuery 2⟩, ⟨blank, sampleReply 3⟩] := by
  have same : ∀ input ∈ ([⟨blank, sampleQuery 1⟩, ⟨blank, sampleQuery 2⟩,
      ⟨blank, sampleReply 3⟩] : List Input), input.p.questions = [⟨"name", "A"⟩] := by
    decide +kernel
  refine (names_question_iff _ (by decide +kernel)).mpr ?_
  intro calls input front this reached response id call recent found builtBy asked
  have earlier := (List.prefix_append calls [input]).trans front
  obtain ⟨other, member, -, rfl⟩ := exists_of_lastAsked asked
  rw [same other (earlier.subset member), same call (earlier.subset builtBy.mem.1)]

end ModDns

end Devourer
