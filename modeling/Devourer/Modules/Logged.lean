import Devourer.Modules.Flow.Step
import Devourer.Modules.Local

/-! # The modules and their logger

A module reaches the logger through `fluent_`, which is null until `set_fluent`. A message
takes two uses of it, `retain_message` before its fields are set and `emit` after; a use
that finds it null ends the program. The functions here are those of the modules with
these uses made explicit, for a given state of `fluent_`. With the logger set they do what
the functions without them do (`recvWith_true`), and all their uses find what `fluent_` is
(`Uses`).
-/

namespace Devourer

variable {ε α β : Type}

/-- A use of `fluent_`, which is set or null, or anything else that is reported. -/
inductive Logged (ε : Type) where
  | deref (isSet : Bool)
  | event (event : ε)

namespace Logged

def event? : Logged ε → Option ε
  | .deref _ => none
  | .event reported => some reported

/-- Use `fluent_`. -/
def use (fluent : Bool) : Exec (Logged ε) Unit :=
  if fluent then Exec.emit (.deref true) else Exec.emit (.deref false) >>= fun _ => Exec.abort

/-- `fluent_->emit`. -/
def log (fluent : Bool) (event : ε) : Exec (Logged ε) Unit := do
  use fluent
  Exec.emit (.event event)

/-- What is reported besides the uses of the logger. -/
def erase (outcome : Exec (Logged ε) α) : Exec ε α :=
  ⟨outcome.events.filterMap event?, outcome.result⟩

/-- All uses of the logger find it as given. -/
def Uses (fluent : Bool) (outcome : Exec (Logged ε) α) : Prop :=
  ∀ isSet, .deref isSet ∈ outcome.events → isSet = fluent

end Logged

open Logged

namespace ModDns

/-- The loop over the answers of a response. -/
def addAnswersWith (fluent : Bool) (tvSec ts : ℤ) (p : Property) :
    List AnswerRecord → ModDns → Exec (Logged DnsEvent) ModDns
  | [], this => pure this
  | answer :: rest, this => do
      use fluent
      log fluent (.log (logMessage tvSec p answer))
      let this ← Exec.ofOption (this.addRecord ts answer)
      addAnswersWith fluent tvSec ts p rest this

/-- The second part of `recv` for a response to the query. -/
def responseWith (fluent : Bool) (p : Property) (id : ℕ) (this : ModDns) :
    Exec (Logged DnsEvent) ModDns := do
  let query := this.queryTable.object id
  use fluent
  let qName ← Exec.ofOption (query.qName 0)
  log fluent (.success id (keyOf p) (successMessage p query qName))
  let this := { this with queryTable := this.queryTable.modify id (Query.setHasReply true) }
  addAnswersWith fluent (timeOfDouble query.lastTs) (timeOfDouble (since p query)) p p.answers this

/-- The second part of `recv`. -/
def handleWith (fluent : Bool) (memory : Memory) (p : Property) (this : ModDns) :
    Exec (Logged DnsEvent) ModDns :=
  if p.dnsQuery = 0 then pure (this.query memory p)
  else
    match this.findQuery p with
    | some id => this.responseWith fluent p id
    | none => do
        use fluent
        log fluent (.miss (keyOf p) (missMessage p))
        pure this

/-- `ModDns::recv`. -/
def recvWith (fluent : Bool) (memory : Memory) (p : Property) (this : ModDns) :
    Exec (Logged DnsEvent) ModDns :=
  (this.tick p.tvSec).handleWith fluent memory p

/-- `flush_query`. -/
def flushQueryWith (fluent : Bool) : ℕ → ModDns → Exec (Logged DnsEvent) ModDns
  | 0, this => pure this
  | fuel + 1, this =>
      match this.queryTable.pop with
      | (none, _) => pure this
      | (some id, queryTable) => do
          let this := { this with queryTable := queryTable }
          let query := queryTable.object id
          if query.hasReply = false then
            use fluent
            let qName ← Exec.ofOption (query.qName 0)
            log fluent (.timeout id query.key (timeoutMessage query qName))
          flushQueryWith fluent fuel this

/-- The destructor. -/
def destroyWith (fluent : Bool) (this : ModDns) : Exec (Logged DnsEvent) ModDns :=
  let queryTable := { this.queryTable with table := this.queryTable.table.purge }
  flushQueryWith fluent (queryTable.table.exp.length + 1) { this with queryTable := queryTable }

end ModDns

namespace ModFlow

/-- One turn of the eviction loop, for the flow just popped. -/
def expireWith (fluent : Bool) (p : Property) (id : ℕ) (this : ModFlow) :
    Exec (Logged FlowEvent) ModFlow :=
  let flow := this.flowTable.object id
  if 0 < flow.remain then do
    let ttl := sizeOfTime flow.remain
    let (taken, flowTable) := this.flowTable.put ttl id
    Exec.emit (.event (.put id ttl taken))
    pure { this with flowTable := flowTable.modify id (Flow.refresh p.tvSec) }
  else do
    use fluent
    let msg ← Exec.ofOption flow.buildMessage
    log fluent (.emitLog id flow.flowKey msg)
    pure this

/-- The eviction loop. -/
def evictWith (fluent : Bool) (p : Property) : ℕ → ModFlow → Exec (Logged FlowEvent) ModFlow
  | 0, this => pure this
  | fuel + 1, this =>
      match this.flowTable.pop with
      | (none, _) => pure this
      | (some id, flowTable) => do
          let this ← expireWith fluent p id { this with flowTable := flowTable }
          evictWith fluent p fuel this

/-- The first part of `recv`. -/
def tickWith (fluent : Bool) (p : Property) (this : ModFlow) : Exec (Logged FlowEvent) ModFlow :=
  if this.lastTs = 0 then pure { this with lastTs := p.tvSec }
  else if this.lastTs < p.tvSec then
    let diff := p.tvSec - this.lastTs
    let flowTable := this.flowTable.prog (sizeOfTime diff)
    evictWith fluent p (flowTable.table.exp.length + 1)
      { this with lastTs := p.tvSec, flowTable := flowTable }
  else pure this

/-- Build a flow for the packet, report it and put it in the table. -/
def newFlowWith (fluent : Bool) (dns : ModDns) (p : Property) (this : ModFlow) :
    Exec (Logged FlowEvent) (ℕ × ModFlow) := do
  let src ← Exec.ofOption (dns.resolvAddr p.src.bytes ModDns.recurMaxDefault)
  let dst ← Exec.ofOption (dns.resolvAddr p.dst.bytes ModDns.recurMaxDefault)
  let flow := Flow.new p src dst
  let id := this.flowTable.built
  use fluent
  log fluent (.emitNew id flow.flowKey (newMessage p flow src dst))
  let ttl := sizeOfTime flowTimeout
  let (taken, flowTable) := (this.flowTable.build flow).put ttl id
  Exec.emit (.event (.put id ttl taken))
  pure (id, { this with flowTable := flowTable })

/-- The second part of `recv`, for an IP packet. -/
def packetWith (fluent : Bool) (dns : ModDns) (p : Property) (this : ModFlow) :
    Exec (Logged FlowEvent) ModFlow :=
  match this.flowTable.get Flow.virt p.hashValue p.ssnLabel with
  | some id => (this.count p id).mapEvents .event
  | none => this.newFlowWith fluent dns p >>= fun (id, this) => (this.count p id).mapEvents .event

/-- `ModFlow::recv`. -/
def recvWith (fluent : Bool) (dns : ModDns) (eid : EvId) (p : Property) (this : ModFlow) :
    Exec (Logged FlowEvent) ModFlow :=
  this.tickWith fluent p >>= fun this =>
    if eid = this.evIpv4 ∨ eid = this.evIpv6 then this.packetWith fluent dns p else pure this

end ModFlow

namespace ModLocal

/-- `ModLocal::recv`. -/
def recvWith (fluent : Bool) (eid : EvId) (p : Property) (arp : ArpValues) (this : ModLocal) :
    Exec (Logged LocalEvent) ModLocal :=
  if this.recvEventsId[arpRequest]? = some eid then do
    use fluent
    log fluent (.arpRequest (arpMessage p arp))
    pure this
  else pure this

end ModLocal

/-! ## With the logger set -/

namespace Logged

/-- Uses of the logger may be erased part by part. -/
theorem erase_bind (first : Exec (Logged ε) α) (next : α → Exec (Logged ε) β) :
    erase (first >>= next) = erase first >>= fun value => erase (next value) := by
  cases returned : first.result with
  | none =>
      have erased : (erase first).result = none := returned
      rw [Exec.bind_of_abort returned, Exec.bind_of_abort erased]
      rfl
  | some value =>
      have erased : (erase first).result = some value := returned
      rw [Exec.bind_of_result returned, Exec.bind_of_result erased]
      simp only [erase, List.filterMap_append]

@[simp] theorem erase_pure (value : α) : erase (pure value : Exec (Logged ε) α) = pure value := rfl

@[simp] theorem erase_ofOption (value : Option α) :
    erase (Exec.ofOption value : Exec (Logged ε) α) = Exec.ofOption value := rfl

@[simp] theorem erase_use : erase (use true : Exec (Logged ε) Unit) = pure () := rfl

@[simp] theorem erase_log (reported : ε) : erase (log true reported) = Exec.emit reported := rfl

@[simp] theorem erase_emit (reported : ε) :
    erase (Exec.emit (.event reported)) = Exec.emit reported := rfl

@[simp] theorem erase_mapEvents (outcome : Exec ε α) :
    erase (outcome.mapEvents .event) = outcome := by
  unfold erase Exec.mapEvents
  rw [List.filterMap_map]
  exact congrArg (Exec.mk · outcome.result) List.filterMap_some

end Logged

namespace ModDns

/-- With the logger set, the loop over the answers is the loop of the module. -/
theorem addAnswersWith_true (tvSec ts : ℤ) (p : Property) (answers : List AnswerRecord)
    (this : ModDns) : erase (addAnswersWith true tvSec ts p answers this) =
      addAnswers tvSec ts p answers this := by
  induction answers generalizing this with
  | nil => rfl
  | cons answer rest ih =>
      unfold addAnswersWith addAnswers
      simp only [erase_bind, erase_use, erase_log, erase_ofOption, Exec.pure_bind, ih]

/-- With the logger set, a response is handled as the module does. -/
theorem responseWith_true (p : Property) (id : ℕ) (this : ModDns) :
    erase (this.responseWith true p id) = this.response p id := by
  unfold responseWith response
  simp only [erase_bind, erase_use, erase_log, erase_ofOption, Exec.pure_bind, addAnswersWith_true]

/-- With the logger set, `recv` is `recv`. -/
theorem recvWith_true (memory : Memory) (p : Property) (this : ModDns) :
    erase (this.recvWith true memory p) = this.recv memory p := by
  unfold recvWith recv handleWith handle
  by_cases query : p.dnsQuery = 0
  · simp only [query, ↓reduceIte, erase_pure]
  · simp only [query, ↓reduceIte]
    cases (this.tick p.tvSec).findQuery p with
    | some id => exact responseWith_true p id _
    | none => rfl

/-- With the logger set, the loop of the destructor is that of the module. -/
theorem flushQueryWith_true (fuel : ℕ) (this : ModDns) :
    erase (flushQueryWith true fuel this) = flushQuery fuel this := by
  induction fuel generalizing this with
  | zero => rfl
  | succ fuel ih =>
      unfold flushQueryWith flushQuery
      obtain ⟨found, queryTable⟩ := this.queryTable.pop
      cases found with
      | none => rfl
      | some id =>
          cases reply : (queryTable.object id).hasReply with
          | false =>
              simp only [reply, ↓reduceIte, erase_bind, erase_use, erase_log, erase_ofOption,
                Exec.pure_bind, ih]
          | true => simp only [reply, Bool.true_eq_false, ↓reduceIte, ih]

/-- With the logger set, the destructor is the destructor. -/
theorem destroyWith_true (this : ModDns) : erase (this.destroyWith true) = this.destroy :=
  flushQueryWith_true _ _

end ModDns

namespace ModFlow

/-- With the logger set, a flow expires as in the module. -/
theorem expireWith_true (p : Property) (id : ℕ) (this : ModFlow) :
    erase (expireWith true p id this) = expire p id this := by
  unfold expireWith expire
  by_cases remains : 0 < (this.flowTable.object id).remain
  · simp only [remains, ↓reduceIte]
    rfl
  · simp only [remains, ↓reduceIte, erase_bind, erase_use, erase_log, erase_ofOption, erase_pure,
      Exec.pure_bind]

/-- With the logger set, the eviction loop is that of the module. -/
theorem evictWith_true (p : Property) (fuel : ℕ) (this : ModFlow) :
    erase (evictWith true p fuel this) = evict p fuel this := by
  induction fuel generalizing this with
  | zero => rfl
  | succ fuel ih =>
      unfold evictWith evict
      obtain ⟨found, flowTable⟩ := this.flowTable.pop
      cases found with
      | none => rfl
      | some id => simp only [erase_bind, expireWith_true, ih]

/-- With the logger set, the clock ticks as in the module. -/
theorem tickWith_true (p : Property) (this : ModFlow) :
    erase (this.tickWith true p) = this.tick p := by
  unfold tickWith tick
  by_cases first : this.lastTs = 0
  · simp only [first, ↓reduceIte, erase_pure]
  · by_cases later : this.lastTs < p.tvSec
    · simp only [first, later, ↓reduceIte, evictWith_true]
    · simp only [first, later, ↓reduceIte, erase_pure]

/-- With the logger set, a flow is opened as in the module. -/
theorem newFlowWith_true (dns : ModDns) (p : Property) (this : ModFlow) :
    erase (this.newFlowWith true dns p) = this.newFlow dns p := by
  unfold newFlowWith newFlow
  simp only [erase_bind, erase_use, erase_log, erase_ofOption, erase_emit, erase_pure,
    Exec.pure_bind]

/-- With the logger set, `recv` is `recv`. -/
theorem recvWith_true (dns : ModDns) (eid : EvId) (p : Property) (this : ModFlow) :
    erase (this.recvWith true dns eid p) = this.recv dns eid p := by
  unfold recvWith recv
  simp only [erase_bind, tickWith_true]
  congr 1
  funext ticked
  by_cases ip : eid = ticked.evIpv4 ∨ eid = ticked.evIpv6
  · simp only [ip, ↓reduceIte]
    unfold packetWith packet
    cases ticked.flowTable.get Flow.virt p.hashValue p.ssnLabel with
    | some id => exact erase_mapEvents _
    | none => simp only [erase_bind, newFlowWith_true, erase_mapEvents]
  · simp only [ip, ↓reduceIte, erase_pure]

end ModFlow

namespace ModLocal

/-- With the logger set, `recv` is `recv`. -/
theorem recvWith_true (eid : EvId) (p : Property) (arp : ArpValues) (this : ModLocal) :
    erase (this.recvWith true eid p arp) = this.recv eid p arp := by
  unfold recvWith recv
  split
  · rfl
  · rfl

end ModLocal

/-! ## What a call finds in `fluent_` -/

namespace Logged

variable {fluent : Bool}

/-- Returning does not use the logger. -/
theorem Uses.pure (value : α) : Uses fluent (pure value : Exec (Logged ε) α) := by
  intro isSet member
  cases member

/-- An abort of the source does not use the logger. -/
theorem Uses.ofOption (value : Option α) :
    Uses fluent (Exec.ofOption value : Exec (Logged ε) α) := by
  intro isSet member
  cases member

/-- Both parts find the logger as given. -/
theorem Uses.bind {first : Exec (Logged ε) α} {next : α → Exec (Logged ε) β}
    (before : Uses fluent first) (after : ∀ value, Uses fluent (next value)) :
    Uses fluent (first >>= next) := by
  intro isSet member
  cases returned : first.result with
  | none =>
      rw [Exec.bind_of_abort returned] at member
      exact before isSet member
  | some value =>
      rw [Exec.bind_of_result returned] at member
      exact (List.mem_append.mp member).elim (before isSet) (after value isSet)

/-- A use finds what is given. -/
theorem Uses.use : Uses fluent (use fluent : Exec (Logged ε) Unit) := by
  intro isSet member
  cases fluent
  · cases List.mem_singleton.mp member
    rfl
  · cases List.mem_singleton.mp member
    rfl

/-- What only reports does not use the logger. -/
theorem Uses.mapEvents (outcome : Exec ε α) : Uses fluent (outcome.mapEvents .event) := by
  intro isSet member
  obtain ⟨reported, -, absurd⟩ := List.mem_map.mp member
  cases absurd

/-- A report alone does not use the logger. -/
theorem Uses.emit (reported : ε) : Uses fluent (Exec.emit (.event reported)) :=
  Uses.mapEvents (Exec.emit reported)

/-- A message is logged after the pointer was read. -/
theorem Uses.log (reported : ε) : Uses fluent (log fluent reported) :=
  Uses.use.bind fun _ => Uses.emit reported

end Logged

namespace ModDns

/-- The loop over the answers. -/
theorem addAnswersWith_uses (fluent : Bool) (tvSec ts : ℤ) (p : Property)
    (answers : List AnswerRecord) (this : ModDns) :
    Uses fluent (addAnswersWith fluent tvSec ts p answers this) := by
  induction answers generalizing this with
  | nil => exact Uses.pure this
  | cons answer rest ih =>
      exact Uses.use.bind fun _ => (Uses.log _).bind fun _ => (Uses.ofOption _).bind ih

/-- A response uses the logger, before anything else. -/
theorem recvWith_false {p : Property} (response : p.dnsQuery ≠ 0) (memory : Memory)
    (this : ModDns) : this.recvWith false memory p = ⟨[.deref false], none⟩ := by
  unfold recvWith handleWith
  rw [if_neg response]
  cases (this.tick p.tvSec).findQuery p with
  | some id => rfl
  | none => rfl

/-- A query is handled without the logger. -/
theorem recvWith_query {p : Property} (query : p.dnsQuery = 0) (fluent : Bool) (memory : Memory)
    (this : ModDns) :
    this.recvWith fluent memory p = pure ((this.tick p.tvSec).query memory p) := by
  unfold recvWith handleWith
  rw [if_pos query]

/-- `recv` finds the logger set if it is, or has nothing to report. -/
theorem recvWith_uses_iff (fluent : Bool) (memory : Memory) (p : Property) (this : ModDns) :
    Uses true (this.recvWith fluent memory p) ↔ fluent = true ∨ p.dnsQuery = 0 := by
  by_cases query : p.dnsQuery = 0
  · rw [recvWith_query query]
    exact iff_of_true (Uses.pure _) (.inr query)
  rw [or_iff_left query]
  cases fluent with
  | false =>
      rw [recvWith_false query]
      refine iff_of_false (fun uses => ?_) nofun
      exact Bool.false_ne_true (uses false (List.mem_singleton_self _))
  | true =>
      refine iff_of_true ?_ rfl
      unfold recvWith handleWith
      rw [if_neg query]
      cases (this.tick p.tvSec).findQuery p with
      | some id =>
          exact Uses.use.bind fun _ => (Uses.ofOption _).bind fun _ => (Uses.log _).bind fun _ =>
            addAnswersWith_uses true _ _ p _ _
      | none => exact Uses.use.bind fun _ => (Uses.log _).bind fun _ => Uses.pure _

/-- A call that returns does what the call with the logger set does. -/
theorem recv_of_recvWith {fluent : Bool} {memory : Memory} {p : Property} {this after : ModDns}
    (returned : (this.recvWith fluent memory p).result = some after) :
    (this.recv memory p).result = some after := by
  have same : this.recvWith fluent memory p = this.recvWith true memory p := by
    cases fluent with
    | true => rfl
    | false =>
        by_cases query : p.dnsQuery = 0
        · rw [recvWith_query query, recvWith_query query]
        · rw [recvWith_false query] at returned
          cases returned
  rw [← recvWith_true, ← same]
  exact returned

/-- The loop of the destructor, with the logger set. -/
theorem flushQueryWith_uses (fuel : ℕ) (this : ModDns) :
    Uses true (flushQueryWith true fuel this) := by
  induction fuel generalizing this with
  | zero => exact Uses.pure _
  | succ fuel ih =>
      unfold flushQueryWith
      obtain ⟨found, queryTable⟩ := this.queryTable.pop
      cases found with
      | none => exact Uses.pure _
      | some id =>
          cases reply : (queryTable.object id).hasReply with
          | false =>
              simp only [reply, ↓reduceIte]
              exact Uses.use.bind fun _ => (Uses.ofOption _).bind fun _ =>
                (Uses.log _).bind fun _ => ih _
          | true =>
              simp only [reply, Bool.true_eq_false, ↓reduceIte]
              exact ih _

/-- Without the logger, only queries with a reply can be popped. -/
theorem flushQueryWith_false_uses_iff {fuel : ℕ} {this : ModDns}
    (enough : this.queryTable.table.exp.length < fuel) :
    Uses true (flushQueryWith false fuel this) ↔
      ∀ id ∈ this.queryTable.table.exp, (this.queryAt id).hasReply = true := by
  induction fuel generalizing this with
  | zero => exact (Nat.not_lt_zero _ enough).elim
  | succ fuel ih =>
      obtain ⟨lastTs, ⟨⟨size, tick, live, exp⟩, object, built⟩, addrs, names⟩ := this
      cases exp with
      | nil => exact iff_of_true (Uses.pure _) (List.forall_mem_nil _)
      | cons id rest =>
          have later := @ih ⟨lastTs, ⟨⟨size, tick, live, rest⟩, object, built⟩, addrs, names⟩
            (Nat.lt_of_succ_lt_succ enough)
          rw [List.forall_mem_cons]
          unfold flushQueryWith
          simp only [Pool.pop, Table.pop]
          cases reply : (object id).hasReply with
          | false =>
              refine iff_of_false (fun uses => ?_) fun all => Bool.false_ne_true all.1
              exact Bool.false_ne_true (uses false List.mem_cons_self)
          | true =>
              simp only [Bool.true_eq_false, ↓reduceIte]
              exact later.trans (and_iff_right trivial).symm

/-- The destructor finds the logger set if it is, or has no unanswered query to report. -/
theorem destroyWith_uses_iff (fluent : Bool) {this : ModDns} (wf : this.queryTable.table.WF) :
    Uses true (this.destroyWith fluent) ↔ fluent = true ∨
      ∀ id ∈ this.queryTable.table.nodes, (this.queryAt id).hasReply = true := by
  cases fluent with
  | true => exact iff_of_true (flushQueryWith_uses _ _) (.inl rfl)
  | false =>
      rw [or_iff_right Bool.false_ne_true]
      refine (flushQueryWith_false_uses_iff (Nat.lt_succ_self _)).trans ?_
      exact forall_congr' fun id => imp_congr_left wf.purge_exp.mem_iff

end ModDns

namespace ModFlow

/-- The table holds no flow. -/
def Idle (this : ModFlow) : Prop := this.flowTable.table.nodes = []

/-- A flow that expires. -/
theorem expireWith_uses (fluent : Bool) (p : Property) (id : ℕ) (this : ModFlow) :
    Uses fluent (expireWith fluent p id this) := by
  unfold expireWith
  by_cases remains : 0 < (this.flowTable.object id).remain
  · simp only [remains, ↓reduceIte]
    exact (Uses.emit _).bind fun _ => Uses.pure _
  · simp only [remains, ↓reduceIte]
    exact Uses.use.bind fun _ => (Uses.ofOption _).bind fun _ => (Uses.log _).bind fun _ =>
      Uses.pure _

/-- The eviction loop. -/
theorem evictWith_uses (fluent : Bool) (p : Property) (fuel : ℕ) (this : ModFlow) :
    Uses fluent (evictWith fluent p fuel this) := by
  induction fuel generalizing this with
  | zero => exact Uses.pure _
  | succ fuel ih =>
      unfold evictWith
      obtain ⟨found, flowTable⟩ := this.flowTable.pop
      cases found with
      | none => exact Uses.pure _
      | some id => exact (expireWith_uses fluent p id _).bind ih

/-- A packet given to the flow module. -/
theorem recvWith_uses (fluent : Bool) (dns : ModDns) (eid : EvId) (p : Property) (this : ModFlow) :
    Uses fluent (this.recvWith fluent dns eid p) := by
  have ticks : Uses fluent (this.tickWith fluent p) := by
    unfold tickWith
    split
    · exact Uses.pure _
    · split
      · exact evictWith_uses fluent p _ _
      · exact Uses.pure _
  refine ticks.bind fun ticked => ?_
  split
  · unfold packetWith
    split
    · exact Uses.mapEvents _
    · refine Uses.bind ?_ fun _ => Uses.mapEvents _
      exact (Uses.ofOption _).bind fun _ => (Uses.ofOption _).bind fun _ => Uses.use.bind fun _ =>
        (Uses.log _).bind fun _ => (Uses.emit _).bind fun _ => Uses.pure _
  · exact Uses.pure _

/-- An empty table stays empty while its clock moves. -/
theorem Idle.tickWith {this : ModFlow} (idle : this.Idle) (p : Property) :
    ∃ after, (∀ fluent, this.tickWith fluent p = pure after) ∧ after.Idle ∧
      after.evIpv4 = this.evIpv4 ∧ after.evIpv6 = this.evIpv6 := by
  unfold ModFlow.tickWith
  by_cases first : this.lastTs = 0
  · exact ⟨_, fun _ => if_pos first, idle, rfl, rfl⟩
  by_cases later : this.lastTs < p.tvSec
  · have empty : (this.flowTable.prog (sizeOfTime (p.tvSec - this.lastTs))).table.nodes = [] :=
      List.Perm.eq_nil (idle ▸ Pool.prog_nodes _)
    have none := (List.append_eq_nil_iff.mp empty).2
    refine ⟨{ this with
      lastTs := p.tvSec
      flowTable := this.flowTable.prog (sizeOfTime (p.tvSec - this.lastTs)) }, fun fluent => ?_,
      empty, rfl, rfl⟩
    rw [if_neg first, if_pos later]
    unfold evictWith
    simp only [Pool.pop, Table.pop, none]
  · refine ⟨this, fun fluent => ?_, idle, rfl, rfl⟩
    rw [if_neg first, if_neg later]

/-- An IP packet that finds the table empty uses the logger. -/
theorem Idle.packetWith {this : ModFlow} (idle : this.Idle) (dns : ModDns) (p : Property) :
    this.packetWith false dns p = ⟨[.deref false], none⟩ := by
  have none : this.flowTable.get Flow.virt p.hashValue p.ssnLabel = none := by
    have live := List.map_eq_nil_iff.mp (List.append_eq_nil_iff.mp idle).1
    simp only [Pool.get, Table.get, live, List.find?_nil, Option.map_none]
  obtain ⟨src, srcIs⟩ := dns.resolvAddr_isSome p.src ModDns.recurMaxDefault
  obtain ⟨dst, dstIs⟩ := dns.resolvAddr_isSome p.dst ModDns.recurMaxDefault
  unfold ModFlow.packetWith newFlowWith
  simp only [none, srcIs, dstIs, Exec.ofOption_some_bind]
  rfl

/-- With an empty table, `recv` without the logger finds it set if the packet is no IP
packet; and then it does what `recv` does, and the table stays empty. -/
theorem Idle.recvWith_false {this : ModFlow} (idle : this.Idle) (dns : ModDns) (eid : EvId)
    (p : Property) :
    (Uses true (this.recvWith false dns eid p) ↔ ¬ (eid = this.evIpv4 ∨ eid = this.evIpv6)) ∧
      ∀ after, (this.recvWith false dns eid p).result = some after →
        after.Idle ∧ (this.recv dns eid p).result = some after := by
  obtain ⟨ticked, same, still, four, six⟩ := idle.tickWith p
  rw [← recvWith_true]
  unfold recvWith
  rw [same, same, Exec.pure_bind, Exec.pure_bind, four, six]
  by_cases ip : eid = this.evIpv4 ∨ eid = this.evIpv6
  · rw [if_pos ip, still.packetWith]
    refine ⟨iff_of_false (fun uses => ?_) (not_not_intro ip), nofun⟩
    exact Bool.false_ne_true (uses false (List.mem_singleton_self _))
  · rw [if_neg ip, if_neg ip]
    refine ⟨iff_of_true (Uses.pure _) ip, fun after returned => ⟨?_, returned⟩⟩
    cases returned
    exact still

end ModFlow

namespace ModLocal

/-- `recv` finds the logger set if it is, or the packet is no ARP request. -/
theorem recvWith_uses_iff (fluent : Bool) (eid : EvId) (p : Property) (arp : ArpValues)
    (this : ModLocal) : Uses true (this.recvWith fluent eid p arp) ↔
      fluent = true ∨ this.recvEventsId[arpRequest]? ≠ some eid := by
  unfold recvWith
  by_cases request : this.recvEventsId[arpRequest]? = some eid
  · rw [if_pos request, or_iff_left (not_not_intro request)]
    cases fluent with
    | false =>
        refine iff_of_false (fun uses => ?_) nofun
        exact Bool.false_ne_true (uses false List.mem_cons_self)
    | true =>
        exact iff_of_true (Uses.use.bind fun _ => (Uses.log _).bind fun _ => Uses.pure _) rfl
  · rw [if_neg request]
    exact iff_of_true (Uses.pure _) (.inr request)

/-- The module has no state of its own. -/
theorem recvWith_result {fluent : Bool} {eid : EvId} {p : Property} {arp : ArpValues}
    {this after : ModLocal} (returned : (this.recvWith fluent eid p arp).result = some after) :
    after = this := by
  unfold recvWith at returned
  split at returned
  · cases fluent with
    | false => cases returned
    | true =>
        cases returned
        rfl
  · cases returned
    rfl

end ModLocal

end Devourer
