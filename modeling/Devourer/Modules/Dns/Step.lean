import Devourer.LRUHash.Seen
import Devourer.Modules.Dns

/-! # What one call of the DNS module does

A call moves the clock and then handles its packet in one of three ways
(`Handled`): a query is stored or stored anew, a response is answered for the
query it belongs to, and a response without a query is only reported. The call
aborts where a response belongs to a query without a question, or has an address
that is neither four nor sixteen bytes long.
-/

namespace Devourer

namespace Query

@[simp] theorem key_setLastTs (ts : ℚ) (query : Query) : (query.setLastTs ts).key = query.key := rfl

@[simp] theorem key_setHasReply (has : Bool) (query : Query) :
    (query.setHasReply has).key = query.key := rfl

@[simp] theorem name_setLastTs (ts : ℚ) (query : Query) :
    (query.setLastTs ts).name = query.name := rfl

@[simp] theorem name_setHasReply (has : Bool) (query : Query) :
    (query.setHasReply has).name = query.name := rfl

theorem answers_iff {query : Query} {key : QueryKey} :
    virt.Answers key.hash key query ↔ query.key = key := by
  constructor
  · exact fun answers => of_decide_eq_true answers.2
  · rintro rfl
    exact ⟨rfl, decide_eq_true rfl⟩

theorem addQuestions (questions : List Question) (query : Query) :
    questions.foldl (fun query question => query.addQuestion question) query =
      { query with
        name := query.name ++ questions.map Question.name
        type := query.type ++ questions.map Question.type } := by
  induction questions generalizing query with
  | nil => simp only [List.foldl_nil, List.map_nil, List.append_nil]
  | cons question rest ih =>
      rw [List.foldl_cons, ih]
      simp only [addQuestion, List.map_cons, List.append_assoc, List.cons_append, List.nil_append]

end Query

namespace ARecord

/-- The name and the address. -/
def read (record : ARecord) : String × Bytes := (record.name, record.key)

theorem read_update (ts : ℤ) (record : ARecord) : (record.update ts).read = record.read := by
  unfold update
  split <;> rfl

theorem hv_update (ts : ℤ) (record : ARecord) : (record.update ts).hv = record.hv := by
  unfold update
  split <;> rfl

end ARecord

namespace CNameRecord

/-- The name and its alias. -/
def read (record : CNameRecord) : String × String := (record.qname, record.cname)

theorem read_update (ts : ℤ) (record : CNameRecord) : (record.update ts).read = record.read := rfl

end CNameRecord

namespace ModDns

/-- The query with the given number. -/
abbrev queryAt (this : ModDns) (id : ℕ) : Query := this.queryTable.object id

theorem newQuery_eq (memory : Memory) (p : Property) :
    newQuery memory p =
      { lastTs := p.ts
        ts := p.ts
        key := keyOf p
        hasReply := memory.hasReply
        client := p.srcAddr
        server := p.dstAddr
        name := p.questions.map Question.name
        type := p.questions.map Question.type } := by
  unfold newQuery
  rw [Query.addQuestions]
  rfl

/-- The query found for a packet is live and has its key. -/
theorem findQuery_eq_some {p : Property} {this : ModDns} {id : ℕ}
    (found : this.findQuery p = some id) :
    (∃ slot, this.queryTable.Live id slot) ∧ (this.queryAt id).key = keyOf p := by
  obtain ⟨live, answers⟩ := Pool.get_eq_some found
  exact ⟨live, Query.answers_iff.mp answers⟩

theorem findQuery_eq_none {p : Property} {this : ModDns} (absent : this.findQuery p = none)
    {id slot : ℕ} (live : this.queryTable.Live id slot) : (this.queryAt id).key ≠ keyOf p :=
  fun same => Pool.get_eq_none absent live (Query.answers_iff.mpr same)

/-! ## The clock -/

theorem tick_lastTs (ts : ℤ) (this : ModDns) : (this.tick ts).lastTs = ts := by
  unfold tick
  split <;> rfl

/-- Whether a packet of the given second moves the tables. -/
def Progresses (ts : ℤ) (this : ModDns) : Prop := 0 < this.lastTs ∧ this.lastTs < ts

instance (ts : ℤ) (this : ModDns) : Decidable (this.Progresses ts) :=
  inferInstanceAs (Decidable (_ ∧ _))

theorem tick_of_progresses {ts : ℤ} {this : ModDns} (progress : this.Progresses ts) :
    this.tick ts = { this.prog (sizeOfTime (ts - this.lastTs)) with lastTs := ts } :=
  if_pos progress

theorem tick_of_not_progresses {ts : ℤ} {this : ModDns} (still : ¬ this.Progresses ts) :
    this.tick ts = { this with lastTs := ts } := if_neg still

/-! ## The caches -/

theorem calcHash_isSome {key : Bytes} (size : key.length = 4 ∨ key.length = 16) :
    ∃ hv, ARecord.calcHash key = some hv := by
  unfold ARecord.calcHash
  rcases size with four | sixteen
  · rw [if_pos four]
    exact ⟨_, rfl⟩
  · rw [if_neg (by omega), if_pos sixteen]
    exact ⟨_, rfl⟩

/-- An IPv4 or IPv6 address resolves to some name, perhaps the empty one. -/
theorem resolvAddr_isSome (this : ModDns) (addr : IpAddr) (recurMax : ℕ) :
    ∃ name, this.resolvAddr addr.bytes recurMax = some name := by
  obtain ⟨hv, hashed⟩ := calcHash_isSome addr.size
  unfold resolvAddr
  rw [hashed]
  exact ⟨_, rfl⟩

/-- Addresses are resolved from the caches. -/
theorem resolvAddr_congr {this this' : ModDns} (addrs : this'.addrTable = this.addrTable)
    (names : this'.nameTable = this.nameTable) (addr : Bytes) (recurMax : ℕ) :
    this'.resolvAddr addr recurMax = this.resolvAddr addr recurMax := by
  have chases : ∀ left name record, this'.chase left name record = this.chase left name record := by
    intro left
    induction left with
    | zero => exact fun _ _ => rfl
    | succ left ih =>
        intro name record
        unfold chase
        simp only [names, ih]
  unfold resolvAddr
  simp only [addrs, names, chases]

/-- A record holds the name for the address, filed under the timeslot. -/
def HasAddr (this : ModDns) (id slot : ℕ) (name : String) (addr : Bytes) : Prop :=
  this.addrTable.Entry ARecord.read id slot (name, addr)

/-- A record holds the alias of the name, filed under the timeslot. -/
def HasAlias (this : ModDns) (id slot : ℕ) (name target : String) : Prop :=
  this.nameTable.Entry CNameRecord.read id slot (name, target)

/-- What holds of the tables between two calls. -/
structure Kept (this : ModDns) : Prop where
  queries : this.queryTable.WF
  addrs : this.addrTable.WF
  names : this.nameTable.WF
  querySize : this.queryTable.table.timeslotSize = 600
  addrSize : this.addrTable.table.timeslotSize = 1200
  nameSize : this.nameTable.table.timeslotSize = 1200
  hashed : ∀ id slot, this.addrTable.Live id slot →
    ARecord.calcHash (this.addrTable.object id).key = some (this.addrTable.object id).hv

theorem Kept.new : ModDns.new.Kept where
  queries := Pool.WF.new 600
  addrs := Pool.WF.new 1200
  names := Pool.WF.new 1200
  querySize := rfl
  addrSize := rfl
  nameSize := rfl
  hashed := nofun

theorem Kept.queryFits {this : ModDns} (kept : this.Kept) :
    queryTtl < this.queryTable.table.timeslotSize := by
  rw [kept.querySize]
  decide

theorem Kept.addrFits {this : ModDns} (kept : this.Kept) :
    cacheTtl < this.addrTable.table.timeslotSize := by
  rw [kept.addrSize]
  decide

theorem Kept.nameFits {this : ModDns} (kept : this.Kept) :
    cacheTtl < this.nameTable.table.timeslotSize := by
  rw [kept.nameSize]
  decide

theorem Kept.tick {this : ModDns} (kept : this.Kept) (ts : ℤ) : (this.tick ts).Kept := by
  by_cases progress : this.Progresses ts
  · rw [tick_of_progresses progress]
    exact ⟨kept.queries.prog _, kept.addrs.prog _, kept.names.prog _,
      (Pool.prog_timeslotSize _).trans kept.querySize,
      (Pool.prog_timeslotSize _).trans kept.addrSize,
      (Pool.prog_timeslotSize _).trans kept.nameSize,
      fun id slot live => kept.hashed id slot ((Pool.live_prog_iff _ id slot).mp live).1⟩
  · rw [tick_of_not_progresses progress]
    exact ⟨kept.queries, kept.addrs, kept.names, kept.querySize, kept.addrSize, kept.nameSize,
      kept.hashed⟩

/-- A lookup answers a live record of the address. -/
theorem getAddr_eq_some {this : ModDns} {addr : Bytes} {hv : UInt64} {id : ℕ}
    (found : this.addrTable.get ARecord.virt hv addr = some id) :
    ∃ slot, this.HasAddr id slot (this.addrTable.object id).name addr := by
  obtain ⟨⟨slot, live⟩, -, matched⟩ := Pool.get_eq_some found
  exact ⟨slot, live, Prod.ext rfl (of_decide_eq_true matched)⟩

/-- A lookup answers nothing only when the address is not known. -/
theorem Kept.getAddr_eq_none {this : ModDns} (kept : this.Kept) {addr : Bytes} {hv : UInt64}
    (hashes : ARecord.calcHash addr = some hv)
    (absent : this.addrTable.get ARecord.virt hv addr = none) (id slot : ℕ) (name : String) :
    ¬ this.HasAddr id slot name addr := by
  rintro ⟨live, reads⟩
  obtain ⟨-, key⟩ := Prod.mk.inj reads
  apply Pool.get_eq_none absent live
  refine ⟨?_, decide_eq_true key⟩
  have hashed := kept.hashed id slot live
  rw [key, hashes] at hashed
  exact (Option.some.inj hashed).symm

/-- A lookup answers a live record whose alias is the name. -/
theorem getAlias_eq_some {this : ModDns} {hv : UInt64} {target : String} {id : ℕ}
    (found : this.nameTable.get CNameRecord.virt hv target = some id) :
    ∃ slot, this.HasAlias id slot (this.nameTable.object id).qname target := by
  obtain ⟨⟨slot, live⟩, -, matched⟩ := Pool.get_eq_some found
  exact ⟨slot, live, Prod.ext rfl (of_decide_eq_true matched)⟩

/-- A lookup answers nothing only when no live record has the name as its alias;
all these records have one hash value. -/
theorem getAlias_eq_none {this : ModDns} {hashed target : String}
    (absent : this.nameTable.get CNameRecord.virt (CNameRecord.calcHash hashed) target = none)
    (id slot : ℕ) (name : String) : ¬ this.HasAlias id slot name target := by
  rintro ⟨live, reads⟩
  obtain ⟨-, same⟩ := Prod.mk.inj reads
  exact Pool.get_eq_none absent live ⟨rfl, decide_eq_true same⟩

/-- The parts of the module that remembering an answer leaves alone. -/
structure Framed (before after : ModDns) : Prop where
  lastTs : after.lastTs = before.lastTs
  queryTable : after.queryTable = before.queryTable
  addrTick : after.addrTable.table.currTick = before.addrTable.table.currTick
  nameTick : after.nameTable.table.currTick = before.nameTable.table.currTick
  addrBuilt : before.addrTable.built ≤ after.addrTable.built
  nameBuilt : before.nameTable.built ≤ after.nameTable.built

theorem Framed.refl (this : ModDns) : Framed this this :=
  ⟨rfl, rfl, rfl, rfl, Nat.le_refl _, Nat.le_refl _⟩

theorem Framed.trans {before middle after : ModDns} (first : Framed before middle)
    (second : Framed middle after) : Framed before after :=
  ⟨second.lastTs.trans first.lastTs, second.queryTable.trans first.queryTable,
    second.addrTick.trans first.addrTick, second.nameTick.trans first.nameTick,
    first.addrBuilt.trans second.addrBuilt, first.nameBuilt.trans second.nameBuilt⟩

/-- The timeslot of the records put now. -/
def cacheSlot (table : Table ℕ) : ℕ := sizeT (cacheTtl + table.currTick) % 1200

/-- An answer with an address. -/
def IsAddress (answer : AnswerRecord) : Prop := answer.recType = 1 ∨ answer.recType = 28

/-- An answer with an alias. -/
def IsAlias (answer : AnswerRecord) : Prop := answer.recType = 5

instance : DecidablePred IsAddress := fun _ => instDecidableOr

instance : DecidablePred IsAlias := fun _ => instDecidableEqUInt32 ..

theorem addRecord_of_isAddress {answer : AnswerRecord} (address : IsAddress answer) (ts : ℤ)
    (this : ModDns) : this.addRecord ts answer = this.addAddress ts answer := if_pos address

theorem IsAlias.not_isAddress {answer : AnswerRecord} (isAlias : IsAlias answer) :
    ¬ IsAddress answer := by
  unfold IsAlias at isAlias
  unfold IsAddress
  rw [isAlias]
  decide

theorem addRecord_of_isAlias {answer : AnswerRecord} (isAlias : IsAlias answer) (ts : ℤ)
    (this : ModDns) : this.addRecord ts answer = some (this.addCName ts answer) :=
  (if_neg isAlias.not_isAddress).trans (if_pos isAlias)

theorem addRecord_of_other {answer : AnswerRecord} (address : ¬ IsAddress answer)
    (isAlias : ¬ IsAlias answer) (ts : ℤ) (this : ModDns) :
    this.addRecord ts answer = some this := (if_neg address).trans (if_neg isAlias)

theorem addAddress_known {this : ModDns} {ts : ℤ} {answer : AnswerRecord} {hv : UInt64} {id : ℕ}
    (hashes : ARecord.calcHash answer.ptr = some hv)
    (found : this.addrTable.get ARecord.virt hv answer.ptr = some id) :
    this.addAddress ts answer =
      some { this with addrTable := this.addrTable.modify id (ARecord.update ts) } := by
  simp only [addAddress, hashes, Option.bind_some, found]

theorem addAddress_fresh {this : ModDns} {ts : ℤ} {answer : AnswerRecord} {hv : UInt64}
    (hashes : ARecord.calcHash answer.ptr = some hv)
    (absent : this.addrTable.get ARecord.virt hv answer.ptr = none) :
    this.addAddress ts answer = some { this with
      addrTable := ((this.addrTable.build ⟨answer.name, answer.ptr, ts, ts, hv⟩).put cacheTtl
        this.addrTable.built).2 } := by
  simp only [addAddress, hashes, Option.bind_some, absent, ARecord.new, Option.map_some]

/-- The ways in which an address is remembered. -/
inductive AddressAdded (ts : ℤ) (answer : AnswerRecord) (this : ModDns) : ModDns → Prop where
  | known (hv : UInt64) (id : ℕ) : ARecord.calcHash answer.ptr = some hv →
      this.addrTable.get ARecord.virt hv answer.ptr = some id →
      AddressAdded ts answer this
        { this with addrTable := this.addrTable.modify id (ARecord.update ts) }
  | fresh (hv : UInt64) : ARecord.calcHash answer.ptr = some hv →
      this.addrTable.get ARecord.virt hv answer.ptr = none →
      AddressAdded ts answer this { this with
        addrTable := ((this.addrTable.build ⟨answer.name, answer.ptr, ts, ts, hv⟩).put cacheTtl
          this.addrTable.built).2 }

theorem addressAdded_of_addAddress {this after : ModDns} {ts : ℤ} {answer : AnswerRecord}
    (added : this.addAddress ts answer = some after) : AddressAdded ts answer this after := by
  obtain ⟨hv, hashes, -⟩ := Option.bind_eq_some_iff.mp added
  cases found : this.addrTable.get ARecord.virt hv answer.ptr with
  | some id =>
      rw [addAddress_known hashes found] at added
      cases added
      exact .known hv id hashes found
  | none =>
      rw [addAddress_fresh hashes found] at added
      cases added
      exact .fresh hv hashes found

/-- The ways in which an answer is remembered. -/
inductive RecordAdded (ts : ℤ) (answer : AnswerRecord) (this : ModDns) : ModDns → Prop where
  | address (after : ModDns) : IsAddress answer → this.addAddress ts answer = some after →
      RecordAdded ts answer this after
  | isAlias : IsAlias answer → RecordAdded ts answer this (this.addCName ts answer)
  | other : ¬ IsAddress answer → ¬ IsAlias answer → RecordAdded ts answer this this

theorem recordAdded_of_addRecord {this after : ModDns} {ts : ℤ} {answer : AnswerRecord}
    (added : this.addRecord ts answer = some after) : RecordAdded ts answer this after := by
  by_cases address : IsAddress answer
  · rw [addRecord_of_isAddress address] at added
    exact .address after address added
  by_cases isAlias : IsAlias answer
  · rw [addRecord_of_isAlias isAlias] at added
    cases added
    exact .isAlias isAlias
  · rw [addRecord_of_other address isAlias] at added
    cases added
    exact .other address isAlias

/-- **An address is remembered** unless it is known already. -/
theorem Kept.addAddress {this after : ModDns} (kept : this.Kept) {ts : ℤ} {answer : AnswerRecord}
    (added : this.addAddress ts answer = some after) :
    after.Kept ∧ Framed this after ∧ after.nameTable = this.nameTable ∧
      ∀ id slot name addr, after.HasAddr id slot name addr ↔ this.HasAddr id slot name addr ∨
        (∀ id slot name, ¬ this.HasAddr id slot name answer.ptr) ∧ id = this.addrTable.built ∧
          slot = cacheSlot this.addrTable.table ∧ answer.name = name ∧ answer.ptr = addr := by
  cases addressAdded_of_addAddress added with
  | known hv id hashes found =>
      refine ⟨⟨kept.queries, kept.addrs.modify _ _, kept.names, kept.querySize, kept.addrSize,
        kept.nameSize, fun other slot live => ?_⟩,
        ⟨rfl, rfl, rfl, rfl, Nat.le_refl _, Nat.le_refl _⟩, rfl, fun other slot name addr => ?_⟩
      · by_cases self : other = id
        · subst self
          have key := congrArg Prod.snd (ARecord.read_update ts (this.addrTable.object other))
          change (ARecord.update ts (this.addrTable.object other)).key = _ at key
          rw [Pool.modify_object_self, key, ARecord.hv_update]
          exact kept.hashed other slot live
        · rw [Pool.modify_object_of_ne self]
          exact kept.hashed other slot live
      · unfold HasAddr
        rw [Pool.entry_modify (ARecord.read_update ts), iff_self_or]
        rintro ⟨unknown, -⟩
        obtain ⟨slot, known⟩ := getAddr_eq_some found
        exact (unknown id slot _ known).elim
  | fresh hv hashes found =>
      refine ⟨⟨kept.queries, (kept.addrs.build _).put kept.addrs.built_not_mem
        (Nat.lt_succ_self _) _, kept.names, kept.querySize,
        (Pool.put_timeslotSize _ _).trans kept.addrSize, kept.nameSize, fun id slot live => ?_⟩,
        ⟨rfl, rfl, Pool.put_currTick _ _, rfl, Nat.le_succ _, Nat.le_refl _⟩, rfl,
        fun id slot name addr => ?_⟩
      · rcases (Pool.live_build_put_iff kept.addrFits id slot).mp live with live | ⟨rfl, -⟩
        · have old := Pool.build_object_of_lt (kept.addrs.live_lt live)
            (⟨answer.name, answer.ptr, ts, ts, hv⟩ : ARecord)
          rw [Pool.put_object, old]
          exact kept.hashed id slot live
        · rw [Pool.put_object, Pool.build_object_self]
          exact hashes
      · unfold HasAddr
        rw [Pool.entry_build_put kept.addrs _ kept.addrFits]
        apply or_congr_right
        rw [ARecord.read, Prod.mk.injEq, Table.slotFor, kept.addrSize]
        constructor
        · exact fun new => ⟨kept.getAddr_eq_none hashes found, new⟩
        · exact fun new => new.2

/-- **An alias is remembered** unless some name is known for which the answer's own
name is the alias. -/
theorem Kept.addCName {this : ModDns} (kept : this.Kept) (ts : ℤ) (answer : AnswerRecord) :
    (this.addCName ts answer).Kept ∧ Framed this (this.addCName ts answer) ∧
      (this.addCName ts answer).addrTable = this.addrTable ∧
      ∀ id slot name target, (this.addCName ts answer).HasAlias id slot name target ↔
        this.HasAlias id slot name target ∨
        (∀ id slot name, ¬ this.HasAlias id slot name answer.name) ∧ id = this.nameTable.built ∧
          slot = cacheSlot this.nameTable.table ∧ answer.name = name ∧ answer.data = target := by
  unfold ModDns.addCName
  cases found : this.nameTable.get CNameRecord.virt (CNameRecord.calcHash answer.data)
      answer.name with
  | some id =>
      refine ⟨⟨kept.queries, kept.addrs, kept.names.modify _ _, kept.querySize, kept.addrSize,
        kept.nameSize, kept.hashed⟩, ⟨rfl, rfl, rfl, rfl, Nat.le_refl _, Nat.le_refl _⟩,
        rfl, fun other slot name target => ?_⟩
      unfold HasAlias
      rw [Pool.entry_modify (CNameRecord.read_update ts), iff_self_or]
      rintro ⟨unknown, -⟩
      obtain ⟨slot, known⟩ := getAlias_eq_some found
      exact (unknown id slot _ known).elim
  | none =>
      refine ⟨⟨kept.queries, kept.addrs, (kept.names.build _).put kept.names.built_not_mem
        (Nat.lt_succ_self _) _, kept.querySize, kept.addrSize,
        (Pool.put_timeslotSize _ _).trans kept.nameSize, kept.hashed⟩,
        ⟨rfl, rfl, rfl, Pool.put_currTick _ _, Nat.le_refl _, Nat.le_succ _⟩, rfl,
        fun id slot name target => ?_⟩
      unfold HasAlias
      rw [Pool.entry_build_put kept.names _ kept.nameFits]
      apply or_congr_right
      rw [CNameRecord.read, CNameRecord.new, Prod.mk.injEq, Table.slotFor, kept.nameSize]
      constructor
      · exact fun new => ⟨getAlias_eq_none found, new⟩
      · exact fun new => new.2

/-- What remembering answers does: nothing is forgotten, and all that is new comes
from the answers and stands in new records. -/
structure Remembered (answers : List AnswerRecord) (before after : ModDns) : Prop where
  kept : after.Kept
  framed : Framed before after
  keepsAddr : ∀ id slot name addr, before.HasAddr id slot name addr →
    after.HasAddr id slot name addr
  keepsAlias : ∀ id slot name target, before.HasAlias id slot name target →
    after.HasAlias id slot name target
  newAddr : ∀ id slot name addr, after.HasAddr id slot name addr →
    before.HasAddr id slot name addr ∨ before.addrTable.built ≤ id ∧
      slot = cacheSlot before.addrTable.table ∧
        ∃ answer ∈ answers, IsAddress answer ∧ answer.name = name ∧ answer.ptr = addr
  newAlias : ∀ id slot name target, after.HasAlias id slot name target →
    before.HasAlias id slot name target ∨ before.nameTable.built ≤ id ∧
      slot = cacheSlot before.nameTable.table ∧
        ∃ answer ∈ answers, IsAlias answer ∧ answer.name = name ∧ answer.data = target

theorem Remembered.refl {this : ModDns} (kept : this.Kept) (answers : List AnswerRecord) :
    Remembered answers this this where
  kept := kept
  framed := Framed.refl this
  keepsAddr _ _ _ _ known := known
  keepsAlias _ _ _ _ known := known
  newAddr _ _ _ _ known := .inl known
  newAlias _ _ _ _ known := .inl known

theorem Remembered.trans {answer : AnswerRecord} {rest : List AnswerRecord}
    {before middle after : ModDns} (first : Remembered [answer] before middle)
    (second : Remembered rest middle after) : Remembered (answer :: rest) before after where
  kept := second.kept
  framed := first.framed.trans second.framed
  keepsAddr _ _ _ _ known := second.keepsAddr _ _ _ _ (first.keepsAddr _ _ _ _ known)
  keepsAlias _ _ _ _ known := second.keepsAlias _ _ _ _ (first.keepsAlias _ _ _ _ known)
  newAddr id slot name addr known := by
    rcases second.newAddr id slot name addr known with known | ⟨new, filed, source, member, facts⟩
    · rcases first.newAddr id slot name addr known with known | ⟨new, filed, source, member, facts⟩
      · exact .inl known
      · rw [List.mem_singleton] at member
        exact .inr ⟨new, filed, source, member ▸ List.mem_cons_self, facts⟩
    · rw [cacheSlot, first.framed.addrTick] at filed
      exact .inr ⟨first.framed.addrBuilt.trans new, filed, source, List.mem_cons_of_mem _ member,
        facts⟩
  newAlias id slot name target known := by
    rcases second.newAlias id slot name target known with
      known | ⟨new, filed, source, member, facts⟩
    · rcases first.newAlias id slot name target known with
        known | ⟨new, filed, source, member, facts⟩
      · exact .inl known
      · rw [List.mem_singleton] at member
        exact .inr ⟨new, filed, source, member ▸ List.mem_cons_self, facts⟩
    · rw [cacheSlot, first.framed.nameTick] at filed
      exact .inr ⟨first.framed.nameBuilt.trans new, filed, source, List.mem_cons_of_mem _ member,
        facts⟩

/-- **One answer.** -/
theorem Kept.addRecord {this after : ModDns} (kept : this.Kept) {ts : ℤ} {answer : AnswerRecord}
    (added : this.addRecord ts answer = some after) : Remembered [answer] this after := by
  cases recordAdded_of_addRecord added with
  | address after address added =>
      obtain ⟨kept, framed, same, known⟩ := kept.addAddress added
      have aliases : ∀ id slot name target, after.HasAlias id slot name target ↔
          this.HasAlias id slot name target := fun _ _ _ _ => by rw [HasAlias, same, HasAlias]
      exact {
        kept := kept
        framed := framed
        keepsAddr := fun id slot name addr old => (known id slot name addr).mpr (.inl old)
        keepsAlias := fun id slot name target old => (aliases id slot name target).mpr old
        newAddr := fun id slot name addr new =>
          ((known id slot name addr).mp new).imp_right fun new => ⟨Nat.le_of_eq new.2.1.symm,
            new.2.2.1, answer, List.mem_singleton_self _, address, new.2.2.2⟩
        newAlias := fun id slot name target new => .inl ((aliases id slot name target).mp new) }
  | isAlias isAlias =>
      obtain ⟨kept, framed, same, known⟩ := kept.addCName ts answer
      have addrs : ∀ id slot name addr, (this.addCName ts answer).HasAddr id slot name addr ↔
          this.HasAddr id slot name addr := fun _ _ _ _ => by rw [HasAddr, same, HasAddr]
      exact {
        kept := kept
        framed := framed
        keepsAddr := fun id slot name addr old => (addrs id slot name addr).mpr old
        keepsAlias := fun id slot name target old => (known id slot name target).mpr (.inl old)
        newAddr := fun id slot name addr new => .inl ((addrs id slot name addr).mp new)
        newAlias := fun id slot name target new =>
          ((known id slot name target).mp new).imp_right fun new => ⟨Nat.le_of_eq new.2.1.symm,
            new.2.2.1, answer, List.mem_singleton_self _, isAlias, new.2.2.2⟩ }
  | other => exact Remembered.refl kept [answer]

/-- Remember the answers one after the other. -/
def remember (ts : ℤ) : List AnswerRecord → ModDns → Option ModDns
  | [], this => some this
  | answer :: rest, this => (this.addRecord ts answer).bind (remember ts rest)

/-- **The loop over the answers.** -/
theorem Kept.remember {ts : ℤ} {answers : List AnswerRecord} {this after : ModDns}
    (kept : this.Kept) (added : remember ts answers this = some after) :
    Remembered answers this after := by
  induction answers generalizing this with
  | nil =>
      cases added
      exact Remembered.refl kept []
  | cons answer rest ih =>
      obtain ⟨middle, first, added⟩ := Option.bind_eq_some_iff.mp added
      have once := kept.addRecord first
      exact once.trans (ih once.kept added)

/-- **Induction over answers.** What every remembered address and alias keeps holds after
the loop. -/
theorem remember_induction {motive : ModDns → Prop} {ts : ℤ} {answers : List AnswerRecord}
    (address : ∀ answer ∈ answers, IsAddress answer → ∀ this after, this.Kept →
      this.addAddress ts answer = some after → motive this → motive after)
    (isAlias : ∀ answer ∈ answers, IsAlias answer → ∀ this, this.Kept → motive this →
      motive (this.addCName ts answer))
    {this after : ModDns} (kept : this.Kept) (added : remember ts answers this = some after)
    (holds : motive this) : motive after := by
  induction answers generalizing this with
  | nil =>
      cases added
      exact holds
  | cons answer rest ih =>
      obtain ⟨middle, first, added⟩ := Option.bind_eq_some_iff.mp added
      refine ih (fun other member => address other (List.mem_cons_of_mem _ member))
        (fun other member => isAlias other (List.mem_cons_of_mem _ member))
        (kept.addRecord first).kept added ?_
      cases recordAdded_of_addRecord first with
      | address middle hasAddress first =>
          exact address answer List.mem_cons_self hasAddress this middle kept first holds
      | isAlias hasAlias => exact isAlias answer List.mem_cons_self hasAlias this kept holds
      | other => exact holds

/-- An address that is remembered is known afterwards. -/
theorem remember_hasAddr {ts : ℤ} {answer : AnswerRecord} {answers : List AnswerRecord}
    {this after : ModDns} (kept : this.Kept) (address : IsAddress answer)
    (member : answer ∈ answers) (added : remember ts answers this = some after) :
    ∃ id slot name, after.HasAddr id slot name answer.ptr := by
  induction answers generalizing this with
  | nil => cases member
  | cons next rest ih =>
      obtain ⟨middle, first, later⟩ := Option.bind_eq_some_iff.mp added
      have keptMiddle := (kept.addRecord first).kept
      rcases List.mem_cons.mp member with rfl | member
      · rw [addRecord_of_isAddress address] at first
        obtain ⟨-, -, -, known⟩ := kept.addAddress first
        have here : ∃ id slot name, middle.HasAddr id slot name answer.ptr := by
          by_cases old : ∃ id slot name, this.HasAddr id slot name answer.ptr
          · obtain ⟨id, slot, name, entry⟩ := old
            exact ⟨id, slot, name, (known id slot name _).mpr (.inl entry)⟩
          · refine ⟨_, _, _, (known _ _ _ _).mpr (.inr ⟨?_, rfl, rfl, rfl, rfl⟩)⟩
            exact fun id slot name entry => old ⟨id, slot, name, entry⟩
        obtain ⟨id, slot, name, entry⟩ := here
        exact ⟨id, slot, name, (keptMiddle.remember later).keepsAddr id slot name _ entry⟩
      · exact ih keptMiddle member later

theorem remember_append (ts : ℤ) (first second : List AnswerRecord) (this : ModDns) :
    remember ts (first ++ second) this = (remember ts first this).bind (remember ts second) := by
  induction first generalizing this with
  | nil => rfl
  | cons answer rest ih =>
      rw [List.cons_append, remember, remember, Option.bind_assoc]
      congr 1
      funext middle
      exact ih middle

/-- Addresses have four or sixteen bytes. -/
def Sized (answers : List AnswerRecord) : Prop :=
  ∀ answer ∈ answers, IsAddress answer → answer.ptr.length = 4 ∨ answer.ptr.length = 16

instance (answers : List AnswerRecord) : Decidable (Sized answers) :=
  inferInstanceAs (Decidable (∀ answer ∈ answers, _ → _))

theorem addAddress_isSome (this : ModDns) (ts : ℤ) {answer : AnswerRecord}
    (size : answer.ptr.length = 4 ∨ answer.ptr.length = 16) :
    ∃ after, this.addAddress ts answer = some after := by
  obtain ⟨hv, hashes⟩ := calcHash_isSome size
  cases found : this.addrTable.get ARecord.virt hv answer.ptr with
  | some id => exact ⟨_, addAddress_known hashes found⟩
  | none => exact ⟨_, addAddress_fresh hashes found⟩

/-- The loop does not abort when the addresses have the right size. -/
theorem remember_isSome (ts : ℤ) {answers : List AnswerRecord} (sized : Sized answers)
    (this : ModDns) : ∃ after, remember ts answers this = some after := by
  induction answers generalizing this with
  | nil => exact ⟨this, rfl⟩
  | cons answer rest ih =>
      obtain ⟨here, later⟩ := List.forall_mem_cons.mp sized
      obtain ⟨middle, added⟩ : ∃ middle, this.addRecord ts answer = some middle := by
        by_cases address : IsAddress answer
        · rw [addRecord_of_isAddress address]
          exact addAddress_isSome this ts (here address)
        by_cases isAlias : IsAlias answer
        · exact ⟨_, addRecord_of_isAlias isAlias ts this⟩
        · exact ⟨_, addRecord_of_other address isAlias ts this⟩
      obtain ⟨after, added'⟩ := ih later middle
      refine ⟨after, ?_⟩
      rw [remember, added, Option.bind_some, added']

/-- When the loop does not abort, the addresses have the right size. -/
theorem sized_of_remember {ts : ℤ} {answers : List AnswerRecord} {this after : ModDns}
    (added : remember ts answers this = some after) : Sized answers := by
  intro answer member address
  obtain ⟨front, rest, rfl⟩ := List.append_of_mem member
  rw [remember_append] at added
  obtain ⟨middle, -, added⟩ := Option.bind_eq_some_iff.mp added
  obtain ⟨next, here, -⟩ := Option.bind_eq_some_iff.mp added
  rw [addRecord_of_isAddress address] at here
  obtain ⟨hv, hashes, -⟩ := Option.bind_eq_some_iff.mp here
  unfold ARecord.calcHash at hashes
  split at hashes
  · exact .inl ‹_›
  split at hashes
  · exact .inr ‹_›
  · cases hashes

/-- The loop emits one `dns.log` for each answer it reaches. -/
theorem addAnswers_eq (tvSec ts : ℤ) (p : Property) (answers : List AnswerRecord)
    (this : ModDns) : (addAnswers tvSec ts p answers this).result = remember ts answers this ∧
      ∀ event ∈ (addAnswers tvSec ts p answers this).events, ∃ msg, event = .log msg := by
  induction answers generalizing this with
  | nil => exact ⟨rfl, nofun⟩
  | cons answer rest ih =>
      rw [addAnswers, Exec.emit_bind, remember]
      cases this.addRecord ts answer with
      | none =>
          refine ⟨rfl, fun event member => ?_⟩
          rw [Exec.ofOption_none_bind, Exec.abort_events, List.mem_singleton] at member
          exact ⟨_, member⟩
      | some middle =>
          obtain ⟨result, events⟩ := ih middle
          refine ⟨result, fun event member => ?_⟩
          rcases List.mem_cons.mp member with rfl | member
          · exact ⟨_, rfl⟩
          · exact events event member

/-! ## One call -/

/-- The ways in which a call that returns handles its packet, once the clock has
moved. -/
inductive Handled (memory : Memory) (p : Property) (this : ModDns) :
    List DnsEvent → ModDns → Prop where
  | asked : p.dnsQuery = 0 → this.findQuery p = none →
      Handled memory p this [] { this with
        queryTable := ((this.queryTable.build (newQuery memory p)).put queryTtl
          this.queryTable.built).2 }
  | askedAgain (id : ℕ) : p.dnsQuery = 0 → this.findQuery p = some id →
      Handled memory p this []
        { this with queryTable := this.queryTable.modify id (Query.setLastTs p.ts) }
  | answered (id : ℕ) (qName : String) (logs : List DnsEvent) (after : ModDns) :
      p.dnsQuery ≠ 0 → this.findQuery p = some id → (this.queryAt id).qName 0 = some qName →
      (∀ event ∈ logs, ∃ msg, event = .log msg) →
      remember (timeOfDouble (since p (this.queryAt id))) p.answers
        { this with queryTable := this.queryTable.modify id (Query.setHasReply true) } =
          some after →
      Handled memory p this
        (.success id (keyOf p) (successMessage p (this.queryAt id) qName) :: logs) after
  | missed : p.dnsQuery ≠ 0 → this.findQuery p = none →
      Handled memory p this [.miss (keyOf p) (missMessage p)] this

/-- The part of a response to a query that comes before its answers. -/
theorem response_eq {p : Property} {id : ℕ} {this : ModDns} {qName : String}
    (named : (this.queryAt id).qName 0 = some qName) :
    this.response p id =
      Exec.emit (.success id (keyOf p) (successMessage p (this.queryAt id) qName)) >>= fun _ =>
        addAnswers (timeOfDouble (this.queryAt id).lastTs)
          (timeOfDouble (since p (this.queryAt id))) p p.answers
          { this with queryTable := this.queryTable.modify id (Query.setHasReply true) } := by
  simp only [response, named]
  rfl

theorem response_of_not_named {p : Property} {id : ℕ} {this : ModDns}
    (named : (this.queryAt id).qName 0 = none) : this.response p id = Exec.abort := by
  simp only [response, named]
  rfl

theorem qName_eq_none {query : Query} : query.qName 0 = none ↔ query.name = [] := by
  unfold Query.qName
  rw [List.getElem?_eq_none_iff, Nat.le_zero, List.length_eq_zero_iff]

/-- The call runs into the end of the questions, or into an assertion about an
address. -/
def Fails (p : Property) (this : ModDns) : Prop :=
  p.dnsQuery ≠ 0 ∧ ∃ id, this.findQuery p = some id ∧
    ((this.queryAt id).name = [] ∨ ¬ Sized p.answers)

/-- **Handling a packet.** -/
theorem handle_spec (memory : Memory) (p : Property) (this : ModDns) :
    Fails p this ∧ (this.handle memory p).result = none ∨
      ∃ events after, this.handle memory p = ⟨events, some after⟩ ∧
        Handled memory p this events after := by
  unfold handle
  by_cases query : p.dnsQuery = 0
  · rw [if_pos query]
    unfold ModDns.query
    cases found : this.findQuery p with
    | none => exact .inr ⟨_, _, rfl, .asked query found⟩
    | some id => exact .inr ⟨_, _, rfl, .askedAgain id query found⟩
  rw [if_neg query]
  cases found : this.findQuery p with
  | none => exact .inr ⟨_, _, rfl, .missed query found⟩
  | some id =>
      dsimp only
      cases named : (this.queryAt id).qName 0 with
      | none =>
          rw [response_of_not_named named]
          exact .inl ⟨⟨query, id, found, .inl (qName_eq_none.mp named)⟩, rfl⟩
      | some qName =>
          rw [response_eq named, Exec.emit_bind]
          obtain ⟨result, logs⟩ := addAnswers_eq (timeOfDouble (this.queryAt id).lastTs)
            (timeOfDouble (since p (this.queryAt id))) p p.answers
            { this with queryTable := this.queryTable.modify id (Query.setHasReply true) }
          rw [result]
          cases remembered : remember (timeOfDouble (since p (this.queryAt id))) p.answers
              { this with queryTable := this.queryTable.modify id (Query.setHasReply true) } with
          | none =>
              refine .inl ⟨⟨query, id, found, .inr fun sized => ?_⟩, rfl⟩
              obtain ⟨after, returned⟩ := remember_isSome _ sized _
              rw [returned] at remembered
              cases remembered
          | some after =>
              exact .inr ⟨_, after, rfl, .answered id qName _ after query found named logs
                remembered⟩

theorem recv_spec (memory : Memory) (p : Property) (this : ModDns) :
    Fails p (this.tick p.tvSec) ∧ (this.recv memory p).result = none ∨
      ∃ events after, this.recv memory p = ⟨events, some after⟩ ∧
        Handled memory p (this.tick p.tvSec) events after := handle_spec memory p _

/-- What a call that returns has done. -/
theorem handled_of_recv {memory : Memory} {p : Property} {this after : ModDns}
    (returned : (this.recv memory p).result = some after) :
    ∃ events, this.recv memory p = ⟨events, some after⟩ ∧
      Handled memory p (this.tick p.tvSec) events after := by
  rcases recv_spec memory p this with ⟨-, aborted⟩ | ⟨events, next, same, handled⟩
  · cases aborted.symm.trans returned
  · cases (congrArg Exec.result same).symm.trans returned
    exact ⟨events, same, handled⟩

/-- A call with a query packet returns. -/
theorem recv_of_query {p : Property} (query : p.dnsQuery = 0) (this : ModDns) (memory : Memory) :
    ∃ after, (this.recv memory p).result = some after := by
  rcases recv_spec memory p this with ⟨⟨response, -⟩, -⟩ | ⟨events, after, same, -⟩
  · exact (response query).elim
  · exact ⟨after, congrArg Exec.result same⟩

/-- What a call reports as answered: the query that its response is matched to. -/
theorem success_mem_recv {memory : Memory} {p : Property} {this : ModDns} {id : ℕ}
    {key : QueryKey} {msg : Message} :
    .success id key msg ∈ (this.recv memory p).events ↔
      p.dnsQuery ≠ 0 ∧ (this.tick p.tvSec).findQuery p = some id ∧ keyOf p = key ∧
        ∃ qName, ((this.tick p.tvSec).queryAt id).qName 0 = some qName ∧
          successMessage p ((this.tick p.tvSec).queryAt id) qName = msg := by
  unfold recv handle
  by_cases query : p.dnsQuery = 0
  · rw [if_pos query]
    simp [query]
  rw [if_neg query]
  cases found : (this.tick p.tvSec).findQuery p with
  | none => simp
  | some other =>
      dsimp only
      cases named : ((this.tick p.tvSec).queryAt other).qName 0 with
      | none =>
          rw [response_of_not_named named]
          simp only [Exec.abort_events, List.not_mem_nil, Option.some.injEq, false_iff]
          rintro ⟨-, rfl, -, qName, asks, -⟩
          cases named.symm.trans asks
      | some qName =>
          rw [response_eq named, Exec.emit_bind, List.mem_cons]
          have noLog : ∀ tvSec ts state,
              .success id key msg ∉ (addAnswers tvSec ts p p.answers state).events := by
            intro tvSec ts state member
            obtain ⟨log, isLog⟩ := (addAnswers_eq tvSec ts p p.answers state).2 _ member
            cases isLog
          rw [or_iff_left (noLog _ _ _), DnsEvent.success.injEq]
          constructor
          · rintro ⟨rfl, rfl, rfl⟩
            exact ⟨query, rfl, rfl, qName, named, rfl⟩
          · rintro ⟨-, same, rfl, other, asks, rfl⟩
            cases same
            cases named.symm.trans asks
            exact ⟨rfl, rfl, rfl⟩

/-- What a call reports as unsolicited: a response without a query. -/
theorem miss_mem_recv {memory : Memory} {p : Property} {this : ModDns} {key : QueryKey}
    {msg : Message} : .miss key msg ∈ (this.recv memory p).events ↔
      p.dnsQuery ≠ 0 ∧ (this.tick p.tvSec).findQuery p = none ∧ keyOf p = key ∧
        missMessage p = msg := by
  unfold recv handle
  by_cases query : p.dnsQuery = 0
  · rw [if_pos query]
    simp [query]
  rw [if_neg query]
  cases found : (this.tick p.tvSec).findQuery p with
  | none => simp [query, eq_comm]
  | some other =>
      dsimp only
      cases named : ((this.tick p.tvSec).queryAt other).qName 0 with
      | none =>
          rw [response_of_not_named named]
          simp
      | some qName =>
          rw [response_eq named, Exec.emit_bind, List.mem_cons]
          simp only [reduceCtorEq, false_or, false_and, and_false, iff_false]
          intro member
          obtain ⟨log, isLog⟩ := (addAnswers_eq _ _ p p.answers _).2 _ member
          cases isLog

theorem Kept.withQueries {this : ModDns} (kept : this.Kept) {queryTable : Pool Query}
    (wf : queryTable.WF) (size : queryTable.table.timeslotSize = 600) :
    ({ this with queryTable := queryTable } : ModDns).Kept :=
  ⟨wf, kept.addrs, kept.names, size, kept.addrSize, kept.nameSize, kept.hashed⟩

/-- The query of a response is marked before the answers are remembered. -/
theorem Kept.answering {this : ModDns} (kept : this.Kept) (id : ℕ) :
    ({ this with
      queryTable := this.queryTable.modify id (Query.setHasReply true) } : ModDns).Kept :=
  kept.withQueries (kept.queries.modify id (Query.setHasReply true)) kept.querySize

/-- Remembering the answers leaves the query marked. -/
theorem Kept.answered_queryTable {this after : ModDns} (kept : this.Kept) {id : ℕ} {ts : ℤ}
    {answers : List AnswerRecord}
    (remembered : ModDns.remember ts answers
      { this with queryTable := this.queryTable.modify id (Query.setHasReply true) } = some after) :
    after.queryTable = this.queryTable.modify id (Query.setHasReply true) :=
  ((kept.answering id).remember remembered).framed.queryTable

theorem Handled.kept {memory : Memory} {p : Property} {this after : ModDns}
    {events : List DnsEvent} (handled : Handled memory p this events after) (kept : this.Kept) :
    after.Kept := by
  cases handled with
  | asked =>
      exact kept.withQueries ((kept.queries.build _).put kept.queries.built_not_mem
        (Nat.lt_succ_self _) _) ((Pool.put_timeslotSize _ _).trans kept.querySize)
  | askedAgain id => exact kept.withQueries (kept.queries.modify _ _) kept.querySize
  | answered id _ _ _ _ _ _ _ remembered =>
      exact ((kept.answering id).remember remembered).kept
  | missed => exact kept

/-- Handling a packet does not move the clock. -/
theorem Handled.clock {memory : Memory} {p : Property} {this after : ModDns}
    {events : List DnsEvent} (handled : Handled memory p this events after) (kept : this.Kept) :
    after.lastTs = this.lastTs ∧
      after.queryTable.table.currTick = this.queryTable.table.currTick := by
  cases handled with
  | asked => exact ⟨rfl, Pool.put_currTick _ _⟩
  | askedAgain => exact ⟨rfl, rfl⟩
  | answered id _ _ _ _ _ _ _ remembered =>
      have framed := (kept.answering id).remember remembered |>.framed
      exact ⟨framed.lastTs, congrArg (fun pool => pool.table.currTick) framed.queryTable⟩
  | missed => exact ⟨rfl, rfl⟩

/-- The invariant holds after every call that returns. -/
theorem Kept.recv {memory : Memory} {p : Property} {this after : ModDns} (kept : this.Kept)
    (returned : (this.recv memory p).result = some after) : after.Kept := by
  obtain ⟨events, -, handled⟩ := handled_of_recv returned
  exact handled.kept (kept.tick p.tvSec)

/-! ## Runs -/

/-- One call of `recv` as an input of a run, with what the memory holds that it may
build a query in. -/
structure Input where
  memory : Memory
  p : Property

/-- Memory that happens to hold zeros. -/
def blank : Memory := ⟨0, 0, false⟩

/-- A query for `name`, to be changed where a run on fixed inputs needs another
packet. -/
def sampleQuery (tvSec : UInt32) : Property :=
  { Property.sample tvSec 1 with questions := [⟨"name", "A"⟩] }

/-- A response to the sample query, with the address of its name. -/
def sampleReply (tvSec : UInt32) : Property :=
  { sampleQuery tvSec with dnsQuery := 1, answers := [⟨"name", "", 1, "", [10, 0, 0, 9]⟩] }

/-- A sequence of calls. -/
def run : ModDns → List Input → Exec DnsEvent ModDns :=
  Exec.run fun this input => this.recv input.memory input.p

theorem Kept.run {inputs : List Input} {this : ModDns}
    (reached : (ModDns.new.run inputs).result = some this) : this.Kept :=
  Exec.run_invariant (fun _ _ this => this.Kept) Kept.new
    (fun _ _ _ _ kept returned => kept.recv returned) inputs this reached

/-- **Induction over calls.** What holds at the start of a run and is kept whenever a packet
is handled after the clock has ticked holds at its end. -/
theorem run_induction (motive : List Input → List DnsEvent → ModDns → Prop)
    (initial : motive [] [] ModDns.new)
    (step : ∀ inputs input this events after, (ModDns.new.run inputs).result = some this →
      this.recv input.memory input.p = ⟨events, some after⟩ →
      Handled input.memory input.p (this.tick input.p.tvSec) events after →
      motive inputs (ModDns.new.run inputs).events this →
      motive (inputs ++ [input]) ((ModDns.new.run inputs).events ++ events) after)
    {inputs : List Input} {this : ModDns}
    (reached : (ModDns.new.run inputs).result = some this) :
    motive inputs (ModDns.new.run inputs).events this := by
  induction inputs using List.reverseRecOn generalizing this with
  | nil =>
      cases reached
      exact initial
  | append_singleton inputs input ih =>
      obtain ⟨before, earlier, returned⟩ := Exec.run_snoc_result.mp reached
      have told := Exec.run_snoc_events input earlier
      change (ModDns.new.run (inputs ++ [input])).events = _ at told
      obtain ⟨events, same, handled⟩ := handled_of_recv returned
      rw [told, same]
      exact step inputs input before events this earlier same handled (ih earlier)

end ModDns

end Devourer
