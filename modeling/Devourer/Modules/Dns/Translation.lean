import Devourer.LRUHash.Alike
import Devourer.Modules.Translation

/-! # The DNS module does not know what time it is

Packets that are captured some seconds later are handled as they are: the tables go through the
same states, the queries are asked later, and so are the reports. The caches are the same, as
the times in them are latencies.
-/

namespace Devourer

/-- The query, asked that much later. -/
inductive Query.Later (ahead : ℤ) : Query → Query → Prop where
  | intro (query : Query) : 0 ≤ query.lastTs → 0 ≤ query.lastTs + ahead →
      Later ahead query { query with lastTs := query.lastTs + ahead, ts := query.ts + ahead }

namespace Query.Later

variable {ahead : ℤ} {query query' : Query}

/-- A query that is asked again later has the later time. -/
theorem setLastTs (later : query.Later ahead query') (ts : ℚ) :
    Query.Later ahead (query.setLastTs ts) (query'.setLastTs (ts + ahead)) := by
  cases later with
  | intro set set' => exact .intro (query.setLastTs ts) set set'

/-- A reply leaves the times of a query alone. -/
theorem setHasReply (later : query.Later ahead query') (has : Bool) :
    Query.Later ahead (query.setHasReply has) (query'.setHasReply has) := by
  cases later with
  | intro set set' => exact .intro (query.setHasReply has) set set'

end Query.Later

/-- The report, that much later. -/
inductive DnsEvent.Later (ahead : ℤ) : DnsEvent → DnsEvent → Prop where
  | success (query : ℕ) (key : QueryKey) (msg : Message) :
      Later ahead (.success query key msg) (.success query key (msg.later ahead))
  | miss (key : QueryKey) (msg : Message) :
      Later ahead (.miss key msg) (.miss key (msg.later ahead))
  | timeout (query : ℕ) (key : QueryKey) (msg : Message) :
      Later ahead (.timeout query key msg) (.timeout query key (msg.later ahead))
  | log (msg : Message) : Later ahead (.log msg) (.log (msg.later ahead))

namespace ModDns

/-- The module, that much later: the caches are the same, as their times are latencies. -/
structure Later (ahead : ℤ) (this this' : ModDns) : Prop where
  clock : Clocks ahead this.lastTs this'.lastTs
  queries : this.queryTable.Alike (Query.Later ahead) this'.queryTable
  addrs : this'.addrTable = this.addrTable
  names : this'.nameTable = this.nameTable

variable {ahead : ℤ} {this this' : ModDns} {p p' : Property}

/-- The query of a packet that is captured later is asked later. -/
theorem later_newQuery (captured : p.Later ahead p') (memory : Memory) :
    (newQuery memory p).Later ahead (newQuery memory p') := by
  rw [newQuery_eq, newQuery_eq]
  cases captured with
  | intro _ _ _ _ nonneg nonneg' =>
      exact .intro ⟨p.ts, p.ts, keyOf p, memory.hasReply, p.srcAddr, p.dstAddr,
        p.questions.map Question.name, p.questions.map Question.type⟩ nonneg nonneg'

namespace Later

/-- A new module has seen no packet, and none of its times is set. -/
protected theorem new (ahead : ℤ) : Later ahead ModDns.new ModDns.new :=
  ⟨.unset, .new 600, rfl, rfl⟩

/-- The clocks tick alike, as only their difference to the packet is read. -/
theorem tick (later : Later ahead this this') (captured : p.Later ahead p') :
    Later ahead (this.tick p.tvSec) (this'.tick p'.tvSec) := by
  obtain ⟨clock, queries, addrs, names⟩ := later
  cases captured with
  | intro lower upper positive positive' _ _ =>
      have now : Clocks ahead p.tvSec (p.tvSec + ahead) := .set positive positive'
      unfold ModDns.tick
      dsimp only
      revert clock
      generalize this.lastTs = lastTs
      generalize this'.lastTs = lastTs'
      rintro (_ | ⟨set, set'⟩)
      · exact ⟨now, queries, addrs, names⟩
      · by_cases forward : lastTs < p.tvSec
        · have ticks : p.tvSec + ahead - (lastTs + ahead) = p.tvSec - lastTs := by omega
          rw [if_pos ⟨set, forward⟩, if_pos ⟨set', by omega⟩, ticks]
          exact ⟨now, queries.prog _, congrArg (Pool.prog _) addrs, congrArg (Pool.prog _) names⟩
        · rw [if_neg fun both => forward both.2, if_neg fun both => forward (by omega)]
          exact ⟨now, queries, addrs, names⟩

/-- A packet belongs to the same query, since keys have no times. -/
theorem findQuery (later : Later ahead this this') (captured : p.Later ahead p') :
    this'.findQuery p' = this.findQuery p := by
  have keys : keyOf p' = keyOf p := by
    cases captured
    rfl
  unfold ModDns.findQuery
  rw [keys]
  apply later.queries.get
  rintro query _ ⟨-, -⟩ hv key
  exact Iff.rfl

/-- A query is built, or asked again, that much later. -/
theorem query (later : Later ahead this this') (captured : p.Later ahead p') (memory : Memory) :
    Later ahead (this.query memory p) (this'.query memory p') := by
  have found := later.findQuery captured
  have again := captured
  obtain ⟨clock, queries, addrs, names⟩ := later
  unfold ModDns.query
  rw [found]
  cases captured with
  | intro lower upper positive positive' nonneg nonneg' =>
      cases this.findQuery p with
      | some id =>
          have touched := queries.modify fun known => (queries.objects id known).setLastTs p.ts
          exact ⟨clock, touched, addrs, names⟩
      | none =>
          have known : this.queryTable.built < this.queryTable.built + 1 := Nat.lt_succ_self _
          have put := ((queries.build (later_newQuery again memory)).put queryTtl known).2
          rw [← queries.built] at put
          exact ⟨clock, queries.built ▸ put, addrs, names⟩

/-! ### A response -/

/-- The caches are told the latency, which is the same. -/
theorem addRecord (later : Later ahead this this') (ts : ℤ) (answer : AnswerRecord) :
    Option.Rel (Later ahead) (this.addRecord ts answer) (this'.addRecord ts answer) := by
  obtain ⟨clock, queries, addrs, names⟩ := later
  unfold ModDns.addRecord
  split
  · unfold addAddress
    rw [addrs]
    cases ARecord.calcHash answer.ptr with
    | none => exact .none
    | some hv =>
        simp only [Option.bind_some]
        split
        · exact .some ⟨clock, queries, rfl, names⟩
        · cases ARecord.new answer.name answer.ptr ts with
          | none => exact .none
          | some record => exact .some ⟨clock, queries, rfl, names⟩
  · split
    · unfold addCName
      dsimp only
      rw [names]
      split
      · exact .some ⟨clock, queries, addrs, rfl⟩
      · exact .some ⟨clock, queries, addrs, rfl⟩
    · exact .some ⟨clock, queries, addrs, names⟩

/-- The loop over the answers logs each of them later and remembers the same. -/
theorem addAnswersWith (fluent : Bool) (tvSec ts : ℤ) (captured : p.Later ahead p')
    (answers : List AnswerRecord) (later : Later ahead this this') :
    Exec.Mirrors (Logged.Later (DnsEvent.Later ahead)) (Later ahead)
      (ModDns.addAnswersWith fluent tvSec ts p answers this)
      (ModDns.addAnswersWith fluent (tvSec + ahead) ts p' answers this') := by
  induction answers generalizing this this' with
  | nil => exact .pure later
  | cons answer rest ih =>
      have message : DnsEvent.Later ahead (.log (logMessage tvSec p answer))
          (.log (logMessage (tvSec + ahead) p' answer)) := by
        cases captured
        exact .log _
      apply Exec.Mirrors.bind (Logged.Later.use fluent)
      intro _ _ _
      apply Exec.Mirrors.bind (Logged.Later.log fluent message)
      intro _ _ _
      exact Exec.Mirrors.bind (.ofOption (later.addRecord ts answer)) fun _ _ => ih

/-- The latency of a response is a difference of two times, and so the same. -/
theorem responseWith (later : Later ahead this this') (captured : p.Later ahead p')
    (fluent : Bool) {id : ℕ} (known : id < this.queryTable.built) :
    Exec.Mirrors (Logged.Later (DnsEvent.Later ahead)) (Later ahead)
      (this.responseWith fluent p id) (this'.responseWith fluent p' id) := by
  obtain ⟨clock, queries, addrs, names⟩ := later
  have asked := queries.objects id known
  have replied := queries.modify fun known => (queries.objects id known).setHasReply true
  unfold ModDns.responseWith
  revert asked
  generalize this.queryTable.object id = query
  generalize this'.queryTable.object id = query'
  rintro ⟨set, set'⟩
  have latency : since p' { query with lastTs := query.lastTs + ahead, ts := query.ts + ahead } =
      since p query := by
    cases captured
    exact congrArg Double.round (add_sub_add_right_eq_sub _ _ _)
  have tvSec := timeOfDouble_add set ahead set'
  have message : ∀ qName, DnsEvent.Later ahead
      (.success id (keyOf p) (successMessage p query qName))
      (.success id (keyOf p') (successMessage p'
        { query with lastTs := query.lastTs + ahead, ts := query.ts + ahead } qName)) := by
    intro qName
    unfold successMessage
    rw [latency, tvSec]
    cases captured
    exact .success id (keyOf p) (successMessage p query qName)
  have answers : p'.answers = p.answers := by
    cases captured
    rfl
  dsimp only
  rw [latency, tvSec, answers]
  apply Exec.Mirrors.bind (Logged.Later.use fluent)
  intro _ _ _
  apply Exec.Mirrors.bind (.option (query.qName 0))
  rintro qName _ rfl
  apply Exec.Mirrors.bind (Logged.Later.log fluent (message qName))
  intro _ _ _
  exact addAnswersWith fluent _ _ captured p.answers ⟨clock, replied, addrs, names⟩

/-- **A packet that is captured later** is handled as it is. -/
theorem recvWith (later : Later ahead this this') (captured : p.Later ahead p') (fluent : Bool)
    (memory : Memory) :
    Exec.Mirrors (Logged.Later (DnsEvent.Later ahead)) (Later ahead)
      (this.recvWith fluent memory p) (this'.recvWith fluent memory p') := by
  have ticked := later.tick captured
  have found := ticked.findQuery captured
  have kind : p'.dnsQuery = p.dnsQuery := by
    cases captured
    rfl
  unfold ModDns.recvWith handleWith
  rw [kind]
  split
  · exact .pure (ticked.query captured memory)
  · rw [found]
    cases asked : (this.tick p.tvSec).findQuery p with
    | some id =>
        obtain ⟨⟨slot, live⟩, -⟩ := findQuery_eq_some asked
        exact ticked.responseWith captured fluent (ticked.queries.below id live.mem_nodes)
    | none =>
        have message : DnsEvent.Later ahead (.miss (keyOf p) (missMessage p))
            (.miss (keyOf p') (missMessage p')) := by
          cases captured with
          | intro _ _ _ _ nonneg nonneg' =>
              unfold missMessage
              rw [timeOfDouble_add nonneg ahead nonneg']
              exact .miss (keyOf p) (missMessage p)
        apply Exec.Mirrors.bind (Logged.Later.use fluent)
        intro _ _ _
        apply Exec.Mirrors.bind (Logged.Later.log fluent message)
        intro _ _ _
        exact .pure ticked

/-! ### The end -/

/-- The timeouts are reported for the same queries, with the later times they were asked at. -/
theorem flushQueryWith (fluent : Bool) (fuel : ℕ) (later : Later ahead this this') :
    Exec.Mirrors (Logged.Later (DnsEvent.Later ahead)) (Later ahead)
      (ModDns.flushQueryWith fluent fuel this) (ModDns.flushQueryWith fluent fuel this') := by
  induction fuel generalizing this this' with
  | zero => exact .pure later
  | succ fuel ih =>
      obtain ⟨clock, queries, addrs, names⟩ := later
      obtain ⟨same, popped, known⟩ := queries.pop
      unfold ModDns.flushQueryWith
      revert same popped known
      generalize this.queryTable.pop = left
      generalize this'.queryTable.pop = right
      obtain ⟨_, queryTable⟩ := left
      obtain ⟨found, queryTable'⟩ := right
      rintro rfl popped known
      cases found with
      | none => exact .pure ⟨clock, queries, addrs, names⟩
      | some id =>
          have rest :
              Later ahead { this with queryTable } { this' with queryTable := queryTable' } :=
            ⟨clock, popped, addrs, names⟩
          have asked := popped.objects id (known id rfl)
          dsimp only
          revert asked
          generalize queryTable.object id = query
          generalize queryTable'.object id = query'
          rintro ⟨set, set'⟩
          have message : ∀ qName, DnsEvent.Later ahead
              (.timeout id query.key (timeoutMessage query qName))
              (.timeout id query.key (timeoutMessage
                { query with lastTs := query.lastTs + ahead, ts := query.ts + ahead } qName)) := by
            intro qName
            unfold timeoutMessage
            rw [timeOfDouble_add set ahead set']
            exact .timeout id query.key (timeoutMessage query qName)
          split
          · apply Exec.Mirrors.bind (Logged.Later.use fluent)
            intro _ _ _
            apply Exec.Mirrors.bind (.option (query.qName 0))
            rintro qName _ rfl
            apply Exec.Mirrors.bind (Logged.Later.log fluent (message qName))
            exact fun _ _ _ => ih rest
          · exact ih rest

/-- The destructor reports the same timeouts. -/
theorem destroyWith (later : Later ahead this this') (fluent : Bool) :
    Exec.Mirrors (Logged.Later (DnsEvent.Later ahead)) (Later ahead)
      (this.destroyWith fluent) (this'.destroyWith fluent) := by
  obtain ⟨clock, queries, addrs, names⟩ := later
  have turns : this'.queryTable.table.purge.exp.length =
      this.queryTable.table.purge.exp.length := by
    rw [queries.table]
  unfold ModDns.destroyWith
  dsimp only
  rw [turns]
  exact flushQueryWith fluent _ ⟨clock, queries.purge, addrs, names⟩

end Later

end ModDns

end Devourer
