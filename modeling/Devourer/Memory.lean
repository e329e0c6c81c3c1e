import Devourer.Lockstep

/-! # Members that are not initialized

The constructor of `Query` leaves three members to what the memory happens to hold. Two of
them are assigned before they are read. The third, whether the query has a reply, is read at
the end of the program only, where it can hide queries without a reply and nothing else
(`life_of_memory`).
-/

set_option linter.dupNamespace false

namespace Devourer

/-- The queries are the same, but the first one may have a reply that the second has not. -/
inductive Query.Masks : Query → Query → Prop where
  | intro (query : Query) (has has' : Bool) : (has' = true → has = true) →
      Masks (query.setHasReply has) (query.setHasReply has')

namespace ModDns

/-- The modules are the same, but for replies of queries. -/
inductive Masks : ModDns → ModDns → Prop where
  | intro {lastTs : ℤ} {table : Table ℕ} {object object' : ℕ → Query} {built : ℕ}
      {addrTable : Pool ARecord} {nameTable : Pool CNameRecord} :
      (∀ id, (object id).Masks (object' id)) →
      Masks ⟨lastTs, ⟨table, object, built⟩, addrTable, nameTable⟩
        ⟨lastTs, ⟨table, object', built⟩, addrTable, nameTable⟩

end ModDns

namespace Query.Masks

variable {query query' : Query}

/-- A query has no more replies than itself. -/
protected theorem refl (query : Query) : query.Masks query :=
  .intro query query.hasReply query.hasReply id

/-- The key is initialized. -/
theorem key (masks : query.Masks query') : query.key = query'.key := by
  cases masks
  rfl

/-- A reply that is there is there in both. -/
theorem replied (masks : query.Masks query') (has : query'.hasReply = true) :
    query.hasReply = true := by
  cases masks with
  | intro _ _ _ more => exact more has

/-- Nothing else differs. -/
theorem eq_of_hasReply (masks : query.Masks query') (same : query.hasReply = query'.hasReply) :
    query = query' := by
  cases masks with
  | intro query _ _ _ =>
      cases same
      rfl

/-- Asking again leaves the replies. -/
theorem setLastTs (masks : query.Masks query') (ts : ℚ) :
    (query.setLastTs ts).Masks (query'.setLastTs ts) := by
  cases masks with
  | intro query has has' more => exact .intro (query.setLastTs ts) has has' more

/-- A reply is one in both, whatever was there. -/
theorem setHasReply (masks : query.Masks query') (has : Bool) :
    (query.setHasReply has).Masks (query'.setHasReply has) := by
  cases masks with
  | intro query _ _ _ => exact .intro query has has id

/-- One query among many. -/
theorem update {object object' : ℕ → Query} (queries : ∀ id, (object id).Masks (object' id))
    (masks : query.Masks query') (id other : ℕ) :
    (Function.update object id query other).Masks (Function.update object' id query' other) := by
  by_cases same : other = id
  · subst same
    rwa [Function.update_self, Function.update_self]
  · rw [Function.update_of_ne same, Function.update_of_ne same]
    exact queries other

end Query.Masks

/-- The second query built for a packet has no reply, unless the first one has. -/
theorem ModDns.masks_newQuery {memory memory' : Memory}
    (more : memory'.hasReply = true → memory.hasReply = true) (p : Property) :
    (newQuery memory p).Masks (newQuery memory' p) := by
  rw [newQuery_eq, newQuery_eq]
  exact .intro ⟨p.ts, p.ts, keyOf p, false, p.srcAddr, p.dstAddr, p.questions.map Question.name,
    p.questions.map Question.type⟩ memory.hasReply memory'.hasReply more

/-- A query is reported to have no reply, or the logger is used for that. -/
def ModDns.unanswered : Logged DnsEvent → Bool
  | .deref _ => true
  | .event (.timeout _ _ _) => true
  | .event _ => false

namespace ModDns.Masks

variable {this this' : ModDns}

/-- A module has no more replies than itself. -/
protected theorem refl (this : ModDns) : this.Masks this := .intro fun _ => .refl _

/-- Whether a query has a reply does not matter for when it expires. -/
theorem tick (masks : this.Masks this') (ts : ℤ) : (this.tick ts).Masks (this'.tick ts) := by
  cases masks with
  | intro queries =>
      unfold ModDns.tick
      dsimp only
      split
      · exact .intro queries
      · exact .intro queries

/-- Which query is found depends on the keys. -/
theorem findQuery (masks : this.Masks this') (p : Property) :
    this.findQuery p = this'.findQuery p := by
  cases masks with
  | @intro _ table object object' built _ _ queries =>
      have virt : Pool.nodeVirt Query.virt ⟨table, object, built⟩ =
          Pool.nodeVirt Query.virt ⟨table, object', built⟩ := by
        unfold Pool.nodeVirt Query.virt
        simp only [fun id => (queries id).key]
      exact congrArg (table.get · (keyOf p).hash (keyOf p)) virt

/-- A query that is changed in both modules. -/
theorem modify (masks : this.Masks this') (id : ℕ) {change change' : Query → Query}
    (changes : ∀ query query', Query.Masks query query' → (change query).Masks (change' query')) :
    ModDns.Masks { this with queryTable := this.queryTable.modify id change }
      { this' with queryTable := this'.queryTable.modify id change' } := by
  cases masks with
  | intro queries => exact .intro (.update queries (changes _ _ (queries id)) id)

/-- The second module may be given better memory. -/
theorem query (masks : this.Masks this') {memory memory' : Memory}
    (more : memory'.hasReply = true → memory.hasReply = true) (p : Property) :
    (this.query memory p).Masks (this'.query memory' p) := by
  have found := masks.findQuery p
  unfold ModDns.query
  rw [← found]
  cases this.findQuery p with
  | some id => exact masks.modify id fun _ _ masks => masks.setLastTs p.ts
  | none =>
      cases masks with
      | @intro _ _ _ _ built _ _ queries =>
          exact .intro (.update queries (masks_newQuery more p) built)

/-- The caches do not know of queries. -/
theorem addRecord (masks : this.Masks this') (ts : ℤ) (answer : AnswerRecord) :
    Option.Rel Masks (this.addRecord ts answer) (this'.addRecord ts answer) := by
  cases masks with
  | intro queries =>
      unfold ModDns.addRecord
      split
      · unfold addAddress
        cases ARecord.calcHash answer.ptr with
        | none => exact .none
        | some hv =>
            simp only [Option.bind_some]
            split
            · exact .some (.intro queries)
            · cases ARecord.new answer.name answer.ptr ts with
              | none => exact .none
              | some record => exact .some (.intro queries)
      · split
        · unfold addCName
          dsimp only
          split
          · exact .some (.intro queries)
          · exact .some (.intro queries)
        · exact .some (.intro queries)

/-! ## A packet -/

/-- The loop over the answers reads no query. -/
theorem addAnswersWith (fluent : Bool) (tvSec ts : ℤ) (p : Property)
    (answers : List AnswerRecord) (masks : this.Masks this') :
    Exec.Matches Masks (ModDns.addAnswersWith fluent tvSec ts p answers this)
      (ModDns.addAnswersWith fluent tvSec ts p answers this') := by
  induction answers generalizing this this' with
  | nil => exact .pure masks
  | cons answer rest ih =>
      apply Exec.Matches.bind (.same (Logged.use fluent))
      intro _ _ _
      apply Exec.Matches.bind (.same (Logged.log fluent _))
      intro _ _ _
      apply Exec.Matches.bind (.ofOption (masks.addRecord ts answer))
      exact fun _ _ => ih

/-- A response to a query says the same, and is a reply in both. -/
theorem responseWith (masks : this.Masks this') (fluent : Bool) (p : Property) (id : ℕ) :
    Exec.Matches Masks (this.responseWith fluent p id) (this'.responseWith fluent p id) := by
  have queries : (this.queryTable.object id).Masks (this'.queryTable.object id) := by
    cases masks with
    | intro queries => exact queries id
  have replied := masks.modify id fun _ _ masks => masks.setHasReply true
  unfold ModDns.responseWith
  revert queries
  generalize this.queryTable.object id = query
  generalize this'.queryTable.object id = query'
  rintro ⟨query, -, -, -⟩
  apply Exec.Matches.bind (.same (Logged.use fluent))
  intro _ _ _
  apply Exec.Matches.bind (.same (Exec.ofOption (query.qName 0)))
  rintro qName _ rfl
  apply Exec.Matches.bind (.same (Logged.log fluent _))
  intro _ _ _
  exact addAnswersWith fluent _ _ p p.answers replied

/-- **What is reported of a packet** does not depend on replies. -/
theorem recvWith (masks : this.Masks this') {memory memory' : Memory}
    (more : memory'.hasReply = true → memory.hasReply = true) (fluent : Bool) (p : Property) :
    Exec.Matches Masks (this.recvWith fluent memory p) (this'.recvWith fluent memory' p) := by
  have ticked := masks.tick p.tvSec
  have found := ticked.findQuery p
  unfold ModDns.recvWith handleWith
  split
  · exact .pure (ticked.query more p)
  · rw [← found]
    cases (this.tick p.tvSec).findQuery p with
    | some id => exact ticked.responseWith fluent p id
    | none =>
        apply Exec.Matches.bind (.same (Logged.use fluent))
        intro _ _ _
        apply Exec.Matches.bind (.same (Logged.log fluent _))
        intro _ _ _
        exact .pure ticked

/-! ## The end -/

/-- A use of the logger may be for a query without a reply. -/
theorem unanswered_use (fluent : Bool) :
    ∀ event ∈ (Logged.use fluent : Exec (Logged DnsEvent) Unit).events,
      unanswered event = true := by
  cases fluent with
  | false | true => exact List.forall_mem_singleton.mpr rfl

/-- A timeout that is reported is for a query without a reply. -/
theorem unanswered_log (fluent : Bool) (id : ℕ) (key : QueryKey) (msg : Message) :
    ∀ event ∈ (Logged.log fluent (.timeout id key msg)).events, unanswered event = true := by
  cases fluent with
  | false => exact List.forall_mem_singleton.mpr rfl
  | true => exact List.forall_mem_cons.mpr ⟨rfl, List.forall_mem_singleton.mpr rfl⟩

/-- The first module leaves out queries. -/
theorem flushQueryWith (masks : this.Masks this') (fluent : Bool) (fuel : ℕ) :
    Exec.Thins unanswered Masks (ModDns.flushQueryWith fluent fuel this)
      (ModDns.flushQueryWith fluent fuel this') := by
  induction fuel generalizing this this' with
  | zero => exact .pure masks
  | succ fuel ih =>
      cases masks with
      | @intro lastTs table object object' built addrTable nameTable queries =>
          unfold ModDns.flushQueryWith Pool.pop
          obtain ⟨found, rest⟩ := table.pop
          cases found with
          | none => exact .pure (.intro queries)
          | some id =>
              have popped : Masks ⟨lastTs, ⟨rest, object, built⟩, addrTable, nameTable⟩
                  ⟨lastTs, ⟨rest, object', built⟩, addrTable, nameTable⟩ := .intro queries
              cases silent' : (object' id).hasReply with
              | true =>
                  have replied := (queries id).replied silent'
                  simp only [silent', replied, Bool.true_eq_false, ↓reduceIte]
                  exact ih popped
              | false =>
                  simp only [silent', ↓reduceIte]
                  cases silent : (object id).hasReply with
                  | false =>
                      have same := (queries id).eq_of_hasReply (silent.trans silent'.symm)
                      simp only [same, ↓reduceIte]
                      apply Exec.Thins.bind (.same unanswered (Logged.use fluent))
                      intro _ _ _
                      apply Exec.Thins.bind (.same unanswered (Exec.ofOption _))
                      rintro qName _ rfl
                      apply Exec.Thins.bind (.same unanswered (Logged.log fluent _))
                      exact fun _ _ _ => ih popped
                  | true =>
                      simp only [Bool.true_eq_false, ↓reduceIte]
                      apply Exec.Thins.skip (unanswered_use fluent)
                      intro _
                      apply Exec.Thins.skip fun _ member => absurd member List.not_mem_nil
                      intro qName
                      apply Exec.Thins.skip (unanswered_log fluent _ _ _)
                      exact fun _ => ih popped

/-- The destructor of the first module leaves out queries. -/
theorem destroyWith (masks : this.Masks this') (fluent : Bool) :
    Exec.Thins unanswered Masks (this.destroyWith fluent) (this'.destroyWith fluent) := by
  cases masks with
  | intro queries => exact flushQueryWith (.intro queries) fluent _

/-! ## The names of addresses -/

/-- Names are found in the caches, which are the same. -/
theorem resolvAddr (masks : this.Masks this') (addr : Bytes) (recurMax : ℕ) :
    this.resolvAddr addr recurMax = this'.resolvAddr addr recurMax := by
  cases masks
  apply resolvAddr_congr
  · rfl
  · rfl

/-- The flow module asks for names only. -/
theorem flow (masks : this.Masks this') (fluent : Bool) (eid : EvId) (p : Property)
    (flow : ModFlow) : flow.recvWith fluent this eid p = flow.recvWith fluent this' eid p := by
  unfold ModFlow.recvWith ModFlow.packetWith ModFlow.newFlowWith
  simp only [masks.resolvAddr]

end ModDns.Masks

/-! ## The program -/

/-- The packet with memory that has been initialized. -/
def Decoded.initialized (event : Decoded) : Decoded := { event with memory := ⟨0, 0, false⟩ }

/-- A query is reported to have no reply, or the logger is used for that. -/
def DevourerEvent.unanswered : DevourerEvent → Bool
  | .deref .modDns _ => true
  | .dns (.timeout _ _ _) => true
  | _ => false

namespace Devourer

/-- The call with memory that has been initialized. -/
def Call.initialized : Call → Call
  | .start netcap =>
      .start { netcap with packets := netcap.packets.map (·.map Decoded.initialized) }
  | .input events => .input (events.map Decoded.initialized)
  | call => call

/-- A call and the same call with memory that has been initialized. -/
theorem Call.pairs_initialized (call : Call) :
    call.Pairs (fun event event' => event' = event.initialized) call.initialized := by
  have each : ∀ events : List Decoded, List.Forall₂ (fun event event' =>
      event' = event.initialized) events (events.map Decoded.initialized) := by
    intro events
    rw [List.forall₂_map_right_iff, List.forall₂_same]
    exact fun _ _ => rfl
  cases call with
  | setdstFluentd dst => exact .setdstFluentd dst
  | setdstFilestream fpath => exact .setdstFilestream fpath
  | setdstMsgqueue => exact .setdstMsgqueue
  | input events => exact .input (each events)
  | start netcap =>
      apply Call.Pairs.start
      rw [List.forall₂_map_right_iff, List.forall₂_same]
      exact fun events _ => each events

/-- The programs are the same, but for replies of queries. -/
abbrev Masks : Devourer → Devourer → Prop := Pairs ModDns.Masks Eq

namespace Masks

variable {this this' : Devourer}

/-- Modules that are the same but for replies handle a packet alike. -/
theorem lockstep :
    Lockstep Eq (fun event event' => event' = event.initialized) ModDns.Masks Eq where
  eid same := by
    subst same
    rfl
  threw _ := rfl
  recvDns {this this' event _} fluent masks here := by
    subst here
    have handled : Exec.Matches ModDns.Masks (this.recvWith fluent event.memory event.p)
        (this'.recvWith fluent ⟨0, 0, false⟩ event.p) :=
      masks.recvWith (fun has => (Bool.false_ne_true has).elim) fluent event.p
    exact handled.mirrors_of fun _ => rfl
  recvFlow {this _ modDns modDns' event _} fluent same masks here := by
    subst same here
    change Exec.Mirrors _ _ (this.recvWith fluent modDns event.eid event.p)
      (this.recvWith fluent modDns' event.eid event.p)
    rw [masks.flow fluent event.eid event.p this]
    exact (Exec.Matches.same _).mirrors_of fun _ => rfl
  recvLocal {event _} this fluent here := by
    subst here
    exact (Exec.Matches.same (this.recvWith fluent event.eid event.p event.arp)).mirrors_of
      fun _ => rfl

/-- Only the DNS module has queries to leave out. -/
theorem deleteModule (masks : this.Masks this') (id : ModuleId) :
    Exec.Thins DevourerEvent.unanswered Masks (this.deleteModule id) (this'.deleteModule id) := by
  cases masks with
  | @intro _ _ _ _ modFlow _ _ fluent _ dns same =>
      subst same
      cases id with
      | modDns =>
          have named : ∀ event,
              DevourerEvent.unanswered (.of .modDns .dns event) = ModDns.unanswered event := by
            rintro (_ | _ | _ | _ | _)
            all_goals rfl
          exact ((dns.destroyWith (fluent .modDns)).mapEvents named).bind fun _ _ dns =>
            .pure (.intro dns rfl)
      | modFlow =>
          apply Exec.Thins.bind (.same DevourerEvent.unanswered (modFlow.destroy.mapEvents .flow))
          intro flow _ same
          subst same
          exact .pure (.intro dns rfl)
      | modLocal => exact .pure (.intro dns rfl)

/-- The modules are deleted in the same order, and the DNS module leaves out queries. -/
theorem destroy (masks : this.Masks this') :
    Exec.Thins DevourerEvent.unanswered Masks this.destroy this'.destroy := by
  have modules : this.modules = this'.modules := by
    cases masks
    rfl
  unfold Devourer.destroy
  rw [← modules]
  exact .run (fun _ _ id masks => deleteModule masks id) this.modules masks

end Masks

/-- **Memory that is not initialized** shows at the end only. Whatever it holds, the public calls
of a `Devourer` do what they do when it is initialized, and where its whole life returns with
initialized memory, it returns as well and has left out nothing but queries without a reply. -/
theorem life_of_memory (this : Devourer) (calls : List Call) :
    (this.run calls).events = (this.run (calls.map Call.initialized)).events ∧
      (this.run calls).result.isSome = (this.run (calls.map Call.initialized)).result.isSome ∧
      ((this.life (calls.map Call.initialized)).result.isSome = true →
        Exec.Fewer DevourerEvent.unanswered (this.life calls).events
            (this.life (calls.map Call.initialized)).events ∧
          (this.life calls).result.isSome = true) := by
  have paired : List.Forall₂ (Call.Pairs fun event event' => event' = event.initialized) calls
      (calls.map Call.initialized) := by
    rw [List.forall₂_map_right_iff, List.forall₂_same]
    exact fun call _ => call.pairs_initialized
  have ran : Exec.Matches Masks (this.run calls) (this.run (calls.map Call.initialized)) :=
    .of_mirrors (Masks.lockstep.run (.intro (.refl _) rfl) paired)
  refine ⟨ran.events, ran.isSome, fun returns => ?_⟩
  obtain ⟨last, returned⟩ := Option.isSome_iff_exists.mp returns
  have lived := (ran.thins DevourerEvent.unanswered).bind fun _ _ masks => Masks.destroy masks
  obtain ⟨fewer, last, returned, -⟩ := lived _ returned
  exact ⟨fewer, Option.isSome_iff_exists.mpr ⟨last, returned⟩⟩

/-- A DNS query in memory that looks like one with a reply. -/
def maskedCalls : List Call :=
  [.start sampleNetCap, .input [{ sampleEvent 1 with memory := ⟨5, 5, true⟩ }]]

set_option maxRecDepth 20000 in
/-- The query is reported in one case only. -/
theorem maskedCalls_returns : ∃ this, new sampleNetDec 0 0 = some this ∧
    (this.life (maskedCalls.map Call.initialized)).result.isSome = true ∧
      (this.life maskedCalls).events.length <
        (this.life (maskedCalls.map Call.initialized)).events.length := by
  have computed : (new sampleNetDec 0 0).map (fun this => decide
      ((this.life (maskedCalls.map Call.initialized)).result.isSome = true ∧
        (this.life maskedCalls).events.length <
          (this.life (maskedCalls.map Call.initialized)).events.length)) = some true := by
    decide +kernel
  obtain ⟨this, built, holds⟩ := Option.map_eq_some_iff.mp computed
  exact ⟨this, built, of_decide_eq_true holds⟩

/-- The timeout of a query is left out. -/
theorem life_of_memory_sample : ∃ this, new sampleNetDec 0 0 = some this ∧
    Exec.Fewer DevourerEvent.unanswered (this.life maskedCalls).events
      (this.life (maskedCalls.map Call.initialized)).events ∧
    (this.life maskedCalls).events.length <
      (this.life (maskedCalls.map Call.initialized)).events.length := by
  obtain ⟨this, built, returns, less⟩ := maskedCalls_returns
  exact ⟨this, built, ((life_of_memory this maskedCalls).2.2 returns).1, less⟩

end Devourer

end Devourer
