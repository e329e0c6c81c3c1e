import Devourer.Foundation.View
import Devourer.LRUHash.Ledger
import Devourer.Modules.Dns.Resolution

/-! # What the DNS module is for

A `DnsBook` has three ledgers: of the questions that may be answered, of the names of addresses
and of aliases. There are no pointers, hash values, buckets and timeslots in it, no chains of
records, and no calls that look something up under one name and store it under another. As long
as the tick counters do not wrap around, the module sends the messages of the book, runs into its
assertions where the book is at a loss, and resolves addresses as the book does
(`life_eq_book`).
-/

namespace Devourer

/-- The message that is sent. -/
def DnsEvent.msg? : DnsEvent → Option Message
  | .success _ _ msg => some msg
  | .miss _ msg => some msg
  | .timeout _ _ msg => some msg
  | .log msg => some msg

/-- The questions, the names of addresses and the names of aliases. -/
structure DnsBook where
  lastTs : ℤ
  questions : Ledger Query
  names : Ledger (String × Bytes)
  aliases : Ledger (String × String)

namespace DnsBook

open ModDns

def new : DnsBook := ⟨0, .new 600, .new 1200, .new 1200⟩

/-- Time passes up to the second, unless that is earlier. -/
def tick (ts : ℤ) (this : DnsBook) : DnsBook :=
  if 0 < this.lastTs ∧ this.lastTs < ts then
    { lastTs := ts
      questions := this.questions.prog (ts - this.lastTs).toNat
      names := this.names.prog (ts - this.lastTs).toNat
      aliases := this.aliases.prog (ts - this.lastTs).toNat }
  else { this with lastTs := ts }

/-- A question is of the packet. -/
def asks (p : Property) (query : Query) : Bool := query.key = keyOf p

/-- Ask a question, or ask it again. -/
def ask (memory : Memory) (p : Property) (this : DnsBook) : DnsBook :=
  match this.questions.find (asks p) with
  | none => { this with questions := this.questions.put queryTtl (newQuery memory p) }
  | some _ => { this with questions := this.questions.touch (asks p) (Query.setLastTs p.ts) }

/-- Enter a name of an address that has none, and an alias of a name that is no alias itself. -/
def learn (answer : AnswerRecord) (this : DnsBook) : Option DnsBook :=
  if IsAddress answer then
    if answer.ptr.length = 4 ∨ answer.ptr.length = 16 then
      some { this with names :=
        if (this.names.find fun entry => entry.2 = answer.ptr).isSome then this.names
        else this.names.put cacheTtl (answer.name, answer.ptr) }
    else none
  else if IsAlias answer then
    some { this with aliases :=
      if (this.aliases.find fun entry => entry.2 = answer.name).isSome then this.aliases
      else this.aliases.put cacheTtl (answer.name, answer.data) }
  else some this

/-- Report one answer after the other, and enter what it says. -/
def learnAll (tvSec : ℤ) (p : Property) : DnsBook → List AnswerRecord → Exec Message DnsBook :=
  Exec.run fun this answer => do
    Exec.emit (logMessage tvSec p answer)
    Exec.ofOption (this.learn answer)

/-- The answer to a question. -/
def answer (p : Property) (query : Query) (this : DnsBook) : Exec Message DnsBook := do
  let qName ← Exec.ofOption (query.qName 0)
  Exec.emit (successMessage p query qName)
  learnAll (timeOfDouble query.lastTs) p
    { this with questions := this.questions.touch (asks p) (Query.setHasReply true) } p.answers

/-- A packet. -/
def recv (memory : Memory) (p : Property) (this : DnsBook) : Exec Message DnsBook :=
  let this := this.tick p.tvSec
  if p.dnsQuery = 0 then pure (this.ask memory p)
  else
    match this.questions.find (asks p) with
    | some query => this.answer p query
    | none => do
        Exec.emit (missMessage p)
        pure this

/-- A sequence of packets. -/
def run : DnsBook → List Input → Exec Message DnsBook :=
  Exec.run fun this input => this.recv input.memory input.p

/-- The name that a name stands for, after some aliases at most. -/
def follow (this : DnsBook) : ℕ → String → String
  | 0, name => name
  | left + 1, name =>
      match this.aliases.find fun entry => entry.2 = name with
      | none => name
      | some entry => follow this left entry.1

/-- The name of an address. -/
def resolve (addr : Bytes) (recurMax : ℕ) (this : DnsBook) : Option String :=
  if addr.length = 4 ∨ addr.length = 16 then
    some (match this.names.find fun entry => entry.2 = addr with
      | none => ""
      | some entry => this.follow recurMax entry.1)
  else none

/-- Report a question that has no reply. -/
def giveUp (this : DnsBook) (query : Query) : Exec Message DnsBook :=
  if query.hasReply = false then do
    let qName ← Exec.ofOption (query.qName 0)
    Exec.emit (timeoutMessage query qName)
    pure this
  else pure this

/-- Give up the questions that have left the ledger. -/
def flush (this : DnsBook) : Exec Message DnsBook :=
  Exec.run giveUp { this with questions := this.questions.taken } this.questions.past

/-- Give up all questions, those that are waiting before those whose time was over. -/
def close (this : DnsBook) : Exec Message DnsBook :=
  flush { this with questions := this.questions.purge }

/-- A sequence of packets, and the end. -/
def life (inputs : List Input) (this : DnsBook) : Exec Message DnsBook :=
  this.run inputs >>= close

end DnsBook

namespace ModDns

/-- The book of the module. -/
def book (this : ModDns) : DnsBook where
  lastTs := this.lastTs
  questions := this.queryTable.ledger id
  names := this.addrTable.ledger ARecord.read
  aliases := this.nameTable.ledger CNameRecord.read

/-- The tables can make so many ticks without a wrap-around. -/
structure Paced (ticks : ℕ) (this : ModDns) : Prop extends this.Kept where
  queryTick : this.queryTable.table.currTick + ticks + 600 ≤ 2 ^ 64
  addrTick : this.addrTable.table.currTick + ticks + 1200 ≤ 2 ^ 64
  nameTick : this.nameTable.table.currTick + ticks + 1200 ≤ 2 ^ 64

variable {this after : ModDns} {ticks : ℕ} {p : Property} {memory : Memory}

theorem Paced.new (bounded : ticks + 1200 ≤ 2 ^ 64) : ModDns.new.Paced ticks :=
  ⟨.new, by change 0 + ticks + 600 ≤ _; omega, by change 0 + ticks + 1200 ≤ _; omega,
    by change 0 + ticks + 1200 ≤ _; omega⟩

/-! ## The clock -/

theorem Paced.tick (paced : this.Paced (ticksTo p.tvSec this.lastTs + ticks)) :
    (this.tick p.tvSec).Paced ticks ∧ (this.tick p.tvSec).book = this.book.tick p.tvSec := by
  obtain ⟨kept, queryTick, addrTick, nameTick⟩ := paced
  by_cases progress : this.Progresses p.tvSec
  · have upper := p.tvSec_upper
    have positive := progress.1
    have forward := progress.2
    have made : ticksTo p.tvSec this.lastTs = sizeOfTime (p.tvSec - this.lastTs) := if_pos progress
    have seconds : sizeOfTime (p.tvSec - this.lastTs) = (p.tvSec - this.lastTs).toNat :=
      sizeOfTime_of_nonneg (by omega) (by omega)
    have book : this.book.tick p.tvSec = _ := if_pos progress
    rw [made] at queryTick addrTick nameTick
    refine ⟨⟨kept.tick _, ?_, ?_, ?_⟩, ?_⟩
    · rw [tick_of_progresses progress]
      change sizeT _ + ticks + 600 ≤ _
      rw [sizeT_of_lt (by omega)]
      omega
    · rw [tick_of_progresses progress]
      change sizeT _ + ticks + 1200 ≤ _
      rw [sizeT_of_lt (by omega)]
      omega
    · rw [tick_of_progresses progress]
      change sizeT _ + ticks + 1200 ≤ _
      rw [sizeT_of_lt (by omega)]
      omega
    · rw [tick_of_progresses progress, book, seconds]
      unfold ModDns.book
      dsimp only [ModDns.prog]
      rw [Pool.ledger_prog kept.queries (by omega), Pool.ledger_prog kept.addrs (by omega),
        Pool.ledger_prog kept.names (by omega)]
  · have made : ticksTo p.tvSec this.lastTs = 0 := if_neg progress
    have book : this.book.tick p.tvSec = _ := if_neg progress
    rw [made, Nat.zero_add] at queryTick addrTick nameTick
    rw [tick_of_not_progresses progress, book]
    have still := kept.tick p.tvSec
    rw [tick_of_not_progresses progress] at still
    exact ⟨⟨still, queryTick, addrTick, nameTick⟩, rfl⟩

/-! ## Lookups -/

theorem findQuery_accepts (id slot : ℕ) (_ : this.queryTable.Live id slot) :
    Query.virt.Answers (keyOf p).hash (keyOf p) (this.queryTable.object id) ↔
      DnsBook.asks p (this.queryTable.object id) = true := by
  rw [Query.answers_iff, DnsBook.asks, decide_eq_true_eq]

/-- The question that is found. -/
theorem find_questions (this : ModDns) (p : Property) :
    this.book.questions.find (DnsBook.asks p) = (this.findQuery p).map this.queryTable.object :=
  Pool.find_ledger findQuery_accepts

/-- The name of an address is found under its hash value. -/
theorem Kept.find_names (kept : this.Kept) {addr : Bytes} {hv : UInt64}
    (hashes : ARecord.calcHash addr = some hv) :
    this.book.names.find (fun entry => entry.2 = addr) =
      (this.addrTable.get ARecord.virt hv addr).map fun id => (this.addrTable.object id).read := by
  apply Pool.find_ledger
  intro id slot live
  have hashed := kept.hashed id slot live
  rw [decide_eq_true_eq]
  constructor
  · exact fun answers => of_decide_eq_true answers.2
  · intro same
    change (this.addrTable.object id).key = addr at same
    rw [same, hashes] at hashed
    exact ⟨(Option.some.inj hashed).symm, decide_eq_true same⟩

/-- All aliases are found under one hash value. -/
theorem find_aliases (this : ModDns) (hashed target : String) :
    this.book.aliases.find (fun entry => entry.2 = target) =
      (this.nameTable.get CNameRecord.virt (CNameRecord.calcHash hashed) target).map
        fun id => (this.nameTable.object id).read := by
  apply Pool.find_ledger
  intro id slot _
  rw [decide_eq_true_eq]
  constructor
  · exact fun answers => of_decide_eq_true answers.2
  · exact fun same => ⟨rfl, decide_eq_true same⟩

/-! ## A query -/

theorem Paced.query (paced : this.Paced ticks) (memory : Memory) (p : Property) :
    (this.query memory p).book = this.book.ask memory p := by
  have found := this.find_questions p
  unfold ModDns.query DnsBook.ask
  cases asked : this.findQuery p with
  | some query =>
      rw [asked] at found
      rw [found]
      have touched : (this.queryTable.modify query (Query.setLastTs p.ts)).ledger id = _ :=
        Pool.ledger_modify paced.queries findQuery_accepts asked rfl
      exact congrArg (fun questions => { this.book with questions }) touched
  | none =>
      rw [asked] at found
      rw [found]
      have size := paced.querySize
      have bounded := paced.queryTick
      have entered : ((this.queryTable.build (newQuery memory p)).put queryTtl
          this.queryTable.built).2.ledger id = _ :=
        Pool.ledger_add paced.queries (by omega) (newQuery memory p) queryTtl
      exact congrArg (fun questions => { this.book with questions }) entered

/-! ## A response -/

theorem calcHash_eq_none {key : Bytes} (size : ¬ (key.length = 4 ∨ key.length = 16)) :
    ARecord.calcHash key = none := by
  obtain ⟨four, sixteen⟩ := not_or.mp size
  exact (if_neg four).trans (if_neg sixteen)

theorem Paced.learnAddress (paced : this.Paced ticks) (ts : ℤ) {answer : AnswerRecord}
    (address : IsAddress answer) :
    (this.addAddress ts answer).map book = this.book.learn answer := by
  unfold DnsBook.learn
  rw [if_pos address]
  by_cases size : answer.ptr.length = 4 ∨ answer.ptr.length = 16
  · obtain ⟨hv, hashes⟩ := calcHash_isSome size
    have named := paced.find_names hashes
    rw [if_pos size, named]
    cases found : this.addrTable.get ARecord.virt hv answer.ptr with
    | some record =>
        rw [addAddress_known hashes found]
        have same : (this.addrTable.modify record (ARecord.update ts)).ledger ARecord.read = _ :=
          Pool.ledger_modify_of_unread record (ARecord.read_update ts)
        exact congrArg (fun names => some { this.book with names }) same
    | none =>
        rw [addAddress_fresh hashes found]
        have sized := paced.addrSize
        have bounded := paced.addrTick
        have entered : ((this.addrTable.build ⟨answer.name, answer.ptr, ts, ts, hv⟩).put cacheTtl
            this.addrTable.built).2.ledger ARecord.read = _ :=
          Pool.ledger_add paced.addrs (by omega) _ cacheTtl
        exact congrArg (fun names => some { this.book with names }) entered
  · rw [if_neg size, ModDns.addAddress, calcHash_eq_none size]
    rfl

theorem Paced.learnAlias (paced : this.Paced ticks) (ts : ℤ) {answer : AnswerRecord}
    (isAlias : IsAlias answer) :
    some (this.addCName ts answer).book = this.book.learn answer := by
  have named := this.find_aliases answer.data answer.name
  unfold DnsBook.learn ModDns.addCName
  rw [if_neg isAlias.not_isAddress, if_pos isAlias, named]
  cases this.nameTable.get CNameRecord.virt (CNameRecord.calcHash answer.data) answer.name with
  | some record =>
      have same : (this.nameTable.modify record (CNameRecord.update ts)).ledger CNameRecord.read =
          _ := Pool.ledger_modify_of_unread record (CNameRecord.read_update ts)
      exact congrArg (fun aliases => some { this.book with aliases }) same
  | none =>
      have sized := paced.nameSize
      have bounded := paced.nameTick
      have entered : ((this.nameTable.build (CNameRecord.new answer.name answer.data ts)).put
          cacheTtl this.nameTable.built).2.ledger CNameRecord.read = _ :=
        Pool.ledger_add paced.names (by omega) _ cacheTtl
      exact congrArg (fun aliases => some { this.book with aliases }) entered

/-- **One answer.** -/
theorem Paced.learn (paced : this.Paced ticks) (ts : ℤ) (answer : AnswerRecord) :
    (this.addRecord ts answer).map book = this.book.learn answer := by
  by_cases address : IsAddress answer
  · rw [addRecord_of_isAddress address]
    exact paced.learnAddress ts address
  · by_cases isAlias : IsAlias answer
    · rw [addRecord_of_isAlias isAlias]
      exact paced.learnAlias ts isAlias
    · rw [addRecord_of_other address isAlias]
      exact ((if_neg address).trans (if_neg isAlias)).symm

theorem Paced.addRecord (paced : this.Paced ticks) {ts : ℤ} {answer : AnswerRecord}
    (added : this.addRecord ts answer = some after) : after.Paced ticks := by
  obtain ⟨kept, framed⟩ := paced.toKept.addRecord added
  refine ⟨kept, ?_, ?_, ?_⟩
  · rw [framed.queryTable]
    exact paced.queryTick
  · rw [framed.addrTick]
    exact paced.addrTick
  · rw [framed.nameTick]
    exact paced.nameTick

/-- **All answers.** -/
theorem Paced.learnAll (paced : this.Paced ticks) (tvSec ts : ℤ) (p : Property)
    (answers : List AnswerRecord) :
    Exec.view DnsEvent.msg? book (addAnswers tvSec ts p answers this) =
      DnsBook.learnAll tvSec p this.book answers := by
  induction answers generalizing this with
  | nil => rfl
  | cons answer rest ih =>
      have told : DnsBook.learnAll tvSec p this.book (answer :: rest) =
          Exec.emit (logMessage tvSec p answer) >>= fun _ =>
            Exec.ofOption (this.book.learn answer) >>= fun next =>
              DnsBook.learnAll tvSec p next rest := Exec.bind_assoc ..
      have seen : DnsEvent.msg? (.log (logMessage tvSec p answer)) =
          some (logMessage tvSec p answer) := rfl
      rw [told, addAnswers, Exec.view_emit_bind seen, ← paced.learn ts answer]
      congr 1
      funext _
      rw [← Exec.view_ofOption]
      exact Exec.view_bind fun next added => ih (paced.addRecord added)

theorem Paced.marked (paced : this.Paced ticks) (query : ℕ) : ({ this with
    queryTable := this.queryTable.modify query (Query.setHasReply true) } : ModDns).Paced ticks :=
  ⟨paced.answering query, paced.queryTick, paced.addrTick, paced.nameTick⟩

theorem Paced.answer (paced : this.Paced ticks) (p : Property) {query : ℕ}
    (asked : this.findQuery p = some query) :
    Exec.view DnsEvent.msg? book (this.response p query) =
      this.book.answer p (this.queryTable.object query) := by
  have touched : (this.queryTable.modify query (Query.setHasReply true)).ledger id = _ :=
    Pool.ledger_modify paced.queries findQuery_accepts asked rfl
  unfold ModDns.response DnsBook.answer
  dsimp only
  cases (this.queryTable.object query).qName 0 with
  | none => rfl
  | some qName =>
      have seen : DnsEvent.msg? (.success query (keyOf p)
          (successMessage p (this.queryTable.object query) qName)) =
            some (successMessage p (this.queryTable.object query) qName) := rfl
      rw [Exec.ofOption_some_bind, Exec.ofOption_some_bind, Exec.view_emit_bind seen,
        (paced.marked query).learnAll]
      congr 1
      funext _
      exact congrArg (fun questions => DnsBook.learnAll _ p { this.book with questions } p.answers)
        touched

/-! ## A packet -/

theorem Handled.paced {events : List DnsEvent} (handled : Handled memory p this events after)
    (paced : this.Paced ticks) : after.Paced ticks := by
  have kept := handled.kept paced.toKept
  cases handled with
  | asked =>
      refine ⟨kept, ?_, paced.addrTick, paced.nameTick⟩
      rw [Pool.put_currTick]
      exact paced.queryTick
  | askedAgain => exact ⟨kept, paced.queryTick, paced.addrTick, paced.nameTick⟩
  | answered query _ _ _ _ _ _ _ remembered =>
      have framed := (paced.answering query).remember remembered |>.framed
      refine ⟨kept, ?_, ?_, ?_⟩
      · rw [framed.queryTable]
        exact paced.queryTick
      · rw [framed.addrTick]
        exact paced.addrTick
      · rw [framed.nameTick]
        exact paced.nameTick
  | missed => exact paced

/-- **One packet.** -/
theorem Paced.recv (paced : this.Paced (ticksTo p.tvSec this.lastTs + ticks)) (memory : Memory) :
    Exec.view DnsEvent.msg? book (this.recv memory p) =
        this.book.recv memory p ∧
      ∀ after, (this.recv memory p).result = some after →
        after.Paced ticks ∧ after.lastTs = p.tvSec := by
  obtain ⟨ticked, book⟩ := paced.tick
  constructor
  · unfold ModDns.recv ModDns.handle DnsBook.recv
    rw [← book]
    dsimp only
    split
    · rw [Exec.view_pure, ticked.query]
    · rw [find_questions]
      cases asked : (this.tick p.tvSec).findQuery p with
      | some query => exact ticked.answer p asked
      | none => rfl
  · intro after returned
    obtain ⟨events, -, handled⟩ := handled_of_recv returned
    refine ⟨handled.paced ticked, (handled.clock ticked.toKept).1.trans (tick_lastTs _ this)⟩

/-! ## Runs and the end -/

theorem Paced.run {inputs : List Input} (paced : this.Paced (progress this.lastTs inputs)) :
    Exec.view DnsEvent.msg? book (this.run inputs) = this.book.run inputs := by
  have seen : Exec.view DnsEvent.msg? book (this.run inputs) =
      this.book.run (inputs.map fun input => input) := by
    apply Exec.view_run_map (fun rest this => this.Paced (progress this.lastTs rest)) _ _ paced
    · intro this input rest after paced returned
      obtain ⟨next, clock⟩ := (Paced.recv paced input.memory).2 after returned
      rw [clock]
      exact next
    · exact fun this input rest paced => (Paced.recv paced input.memory).1
  rwa [List.map_id'] at seen

/-- Addresses resolve as in the book. -/
theorem Kept.resolve (kept : this.Kept) (addr : Bytes) (recurMax : ℕ) :
    this.resolvAddr addr recurMax = this.book.resolve addr recurMax := by
  have follows : ∀ left name, this.book.follow left name = this.follow left name := by
    intro left
    induction left with
    | zero => exact fun _ => rfl
    | succ left ih =>
        intro name
        unfold DnsBook.follow ModDns.follow
        rw [this.find_aliases name]
        cases this.nameTable.get CNameRecord.virt (CNameRecord.calcHash name) name with
        | none => rfl
        | some record => exact ih _
  unfold DnsBook.resolve
  by_cases size : addr.length = 4 ∨ addr.length = 16
  · obtain ⟨hv, hashes⟩ := calcHash_isSome size
    rw [if_pos size, resolvAddr_eq hashes, kept.find_names hashes]
    cases this.addrTable.get ARecord.virt hv addr with
    | none => rfl
    | some record => exact congrArg some (follows _ _).symm
  · unfold ModDns.resolvAddr
    rw [if_neg size, calcHash_eq_none size]
    rfl

theorem view_flushQuery {fuel : ℕ} (enough : this.queryTable.table.exp.length < fuel) :
    Exec.view DnsEvent.msg? book (flushQuery fuel this) = this.book.flush := by
  induction fuel generalizing this with
  | zero => omega
  | succ fuel ih =>
      obtain ⟨lastTs, ⟨⟨size, tick, live, exp⟩, object, built⟩, addrTable, nameTable⟩ := this
      cases exp with
      | nil => rfl
      | cons query rest =>
          have later : Exec.view DnsEvent.msg? book (flushQuery fuel
              ⟨lastTs, ⟨⟨size, tick, live, rest⟩, object, built⟩, addrTable, nameTable⟩) = _ :=
            ih (Nat.lt_of_succ_lt_succ enough)
          have seen : ∀ qName, DnsEvent.msg? (.timeout query (object query).key
              (timeoutMessage (object query) qName)) =
                some (timeoutMessage (object query) qName) := fun _ => rfl
          have turns : DnsBook.flush (ModDns.book
              ⟨lastTs, ⟨⟨size, tick, live, query :: rest⟩, object, built⟩, addrTable, nameTable⟩) =
                DnsBook.giveUp _ (object query) >>= fun next =>
                  Exec.run DnsBook.giveUp next (rest.map object) := rfl
          rw [turns]
          unfold flushQuery Pool.pop Table.pop DnsBook.giveUp
          dsimp only
          cases (object query).hasReply with
          | true => exact later
          | false =>
              simp only [↓reduceIte]
              cases (object query).qName 0 with
              | none => rfl
              | some qName =>
                  rw [Exec.ofOption_some_bind, Exec.ofOption_some_bind,
                    Exec.view_emit_bind (seen qName), later]
                  rfl

/-- **The destructor.** -/
theorem Kept.close (kept : this.Kept) :
    Exec.view DnsEvent.msg? book this.destroy = this.book.close := by
  have purged : Pool.ledger id { this.queryTable with table := this.queryTable.table.purge } = _ :=
    Pool.ledger_purge kept.queries
  unfold ModDns.destroy DnsBook.close
  dsimp only
  refine (view_flushQuery (Nat.lt_succ_self _)).trans ?_
  exact congrArg (fun questions => DnsBook.flush { this.book with questions }) purged

/-- **The module keeps the book.** As long as the tick counters do not wrap around, it sends the
messages of the book over its whole life, in the order of the book, and returns or aborts like it;
and after every run, all addresses resolve as in the book. -/
theorem life_eq_book (inputs : List Input) (bounded : progress 0 inputs + 1200 ≤ 2 ^ 64) :
    Exec.view DnsEvent.msg? book (ModDns.new.run inputs >>= destroy) =
        DnsBook.new.life inputs ∧
      ∀ this, (ModDns.new.run inputs).result = some this →
        (DnsBook.new.run inputs).result = some this.book ∧
          ∀ addr recurMax, this.resolvAddr addr recurMax = this.book.resolve addr recurMax := by
  have seen : Exec.view DnsEvent.msg? book (ModDns.new.run inputs) = DnsBook.new.run inputs :=
    (Paced.new bounded).run
  constructor
  · unfold DnsBook.life
    rw [← seen]
    exact Exec.view_bind fun last returned => (Kept.run returned).close
  · intro this reached
    refine ⟨?_, (Kept.run reached).resolve⟩
    rw [← seen, Exec.view, reached]
    rfl

/-- A query, its response and a query without one. -/
theorem life_eq_book_sample :
    Exec.view DnsEvent.msg? book (ModDns.new.run [⟨blank, sampleQuery 1⟩,
        ⟨blank, { sampleQuery 2 with dnsQuery := 1 }⟩, ⟨blank, sampleQuery 700⟩] >>= destroy) =
      DnsBook.new.life [⟨blank, sampleQuery 1⟩, ⟨blank, { sampleQuery 2 with dnsQuery := 1 }⟩,
        ⟨blank, sampleQuery 700⟩] :=
  (life_eq_book _ (by decide)).1

end ModDns

end Devourer
