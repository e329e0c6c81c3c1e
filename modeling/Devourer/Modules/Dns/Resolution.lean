import Devourer.Modules.Dns.Step

/-! # Where resolved names come from

The caches hold nothing but what matched responses carried, and nothing for more
than `cacheTtl` ticks (`Sourced`). A name that `resolv_addr` returns is therefore
backed by an answer with the address and by a chain of answers with aliases, all
from responses that were asked for, however the records lead into each other.
-/

namespace Devourer

namespace ModDns

/-! ## Following aliases -/

/-- The name at which the loop of `resolv_addr` ends. -/
def follow (this : ModDns) : ℕ → String → String
  | 0, name => name
  | left + 1, name =>
      match this.nameTable.get CNameRecord.virt (CNameRecord.calcHash name) name with
      | none => name
      | some id => this.follow left (this.nameTable.object id).qname

/-- The last record found has the name at which the loop ends. -/
theorem chase_qname (this : ModDns) (left : ℕ) (name base : String) (record : Option ℕ)
    (reads : record.elim base (fun found => (this.nameTable.object found).qname) = name) :
    (this.chase left name record).elim base (fun found => (this.nameTable.object found).qname) =
      this.follow left name := by
  induction left generalizing name record with
  | zero => exact reads
  | succ left ih =>
      rw [chase, follow]
      cases this.nameTable.get CNameRecord.virt (CNameRecord.calcHash name) name with
      | none => exact reads
      | some id => exact ih _ (some id) rfl

/-- **`resolv_addr`** follows aliases from the name remembered for the address. -/
theorem resolvAddr_eq {addr : Bytes} {hv : UInt64} (hashes : ARecord.calcHash addr = some hv)
    (recurMax : ℕ) (this : ModDns) : this.resolvAddr addr recurMax =
      some ((this.addrTable.get ARecord.virt hv addr).elim ""
        fun id => this.follow recurMax (this.addrTable.object id).name) := by
  unfold resolvAddr
  rw [hashes, Option.map_some]
  cases this.addrTable.get ARecord.virt hv addr with
  | none => rfl
  | some id =>
      have followed := this.chase_qname recurMax (this.addrTable.object id).name
        (this.addrTable.object id).name none rfl
      dsimp only [Option.elim]
      rw [← followed]
      cases this.chase recurMax (this.addrTable.object id).name none <;> rfl

/-- Answers that lead from one name through aliases to another. -/
inductive Chain (valid : AnswerRecord → Prop) : List AnswerRecord → String → String → Prop where
  | nil (name : String) : Chain valid [] name name
  | cons {answer : AnswerRecord} {links : List AnswerRecord} {target : String} : valid answer →
      Chain valid links answer.data target → Chain valid (answer :: links) answer.name target

theorem Chain.snoc {valid : AnswerRecord → Prop} {links : List AnswerRecord} {answer : AnswerRecord}
    {name target : String} (chain : Chain valid links name target) (holds : valid answer)
    (joins : answer.name = target) : Chain valid (links ++ [answer]) name answer.data := by
  induction chain with
  | nil name =>
      subst joins
      exact .cons holds (.nil _)
  | cons first _ ih => exact .cons first (ih joins)

/-- Following at most `left` aliases walks back a chain of at most that many answers,
and ends earlier only at a name that is no alias. -/
theorem follow_chain {this : ModDns} {valid : AnswerRecord → Prop}
    (sourced : ∀ id slot name target, this.HasAlias id slot name target →
      ∃ answer, valid answer ∧ answer.name = name ∧ answer.data = target)
    (left : ℕ) (name : String) : ∃ links, Chain valid links (this.follow left name) name ∧
      links.length ≤ left ∧ (links.length < left → ∀ id slot other,
        ¬ this.HasAlias id slot other (this.follow left name)) := by
  induction left generalizing name with
  | zero => exact ⟨[], .nil name, Nat.le_refl 0, fun absurd => (Nat.not_lt_zero _ absurd).elim⟩
  | succ left ih =>
      rw [follow]
      cases found : this.nameTable.get CNameRecord.virt (CNameRecord.calcHash name) name with
      | none => exact ⟨[], .nil name, Nat.zero_le _, fun _ => getAlias_eq_none found⟩
      | some id =>
          obtain ⟨slot, known⟩ := getAlias_eq_some found
          obtain ⟨answer, holds, named, rfl⟩ := sourced id slot _ _ known
          obtain ⟨links, chain, short, ends⟩ := ih (this.nameTable.object id).qname
          refine ⟨links ++ [answer], chain.snoc holds named, ?_, fun shorter => ?_⟩
          · rw [List.length_append, List.length_singleton]
            omega
          · rw [List.length_append, List.length_singleton] at shorter
            exact ends (by omega)

/-! ## Ages -/

/-- A record of the given age stands in the timeslot that progress reaches when its
ticks run out. -/
def Aged (slotAt : ℕ → ℕ) (slot age : ℕ) : Prop := age ≤ cacheTtl ∧ slot = slotAt (cacheTtl - age)

/-- A record that progress leaves has grown older by it. -/
theorem Aged.progress {slotAt moved : ℕ → ℕ} {slot age ticks : ℕ} (aged : Aged slotAt slot age)
    (left : ¬ Table.Visits slotAt 0 ticks slot) (moves : ∀ i, moved i = slotAt (ticks + i)) :
    Aged moved slot (age + ticks) := by
  obtain ⟨young, filed⟩ := aged
  have early : ticks ≤ cacheTtl - age := by
    by_contra late
    exact left ⟨cacheTtl - age, Nat.zero_le _, by omega, filed.symm⟩
  refine ⟨by omega, ?_⟩
  rw [moves, filed]
  congr 1
  omega

/-- How many ticks the tables progress for a packet of the given second. -/
def ticksTo (ts lastTs : ℤ) : ℕ := if 0 < lastTs ∧ lastTs < ts then sizeOfTime (ts - lastTs) else 0

/-! ## Histories -/

/-- The ticks that the calls progress, after a packet of the given second. -/
def progress : ℤ → List Input → ℕ
  | _, [] => 0
  | lastTs, input :: rest => ticksTo input.p.tvSec lastTs + progress input.p.tvSec rest

/-- The second of the last packet. -/
def lastSecond : ℤ → List Input → ℤ
  | lastTs, [] => lastTs
  | _, input :: rest => lastSecond input.p.tvSec rest

theorem lastSecond_append_cons (lastTs : ℤ) (front : List Input) (call : Input)
    (rest : List Input) :
    lastSecond lastTs (front ++ call :: rest) = lastSecond call.p.tvSec rest := by
  induction front generalizing lastTs with
  | nil => rfl
  | cons _ _ ih => exact ih _

theorem progress_snoc (lastTs : ℤ) (rest : List Input) (input : Input) :
    progress lastTs (rest ++ [input]) =
      progress lastTs rest + ticksTo input.p.tvSec (lastSecond lastTs rest) := by
  induction rest generalizing lastTs with
  | nil =>
      change ticksTo _ _ + 0 = 0 + ticksTo _ _
      rw [Nat.add_comm]
      rfl
  | cons call rest ih =>
      rw [List.cons_append, progress, progress, ih, Nat.add_assoc]
      rfl

/-- The answer was carried by a response that matched a live query when processed,
the given number of ticks ago; the record was built in this call, as `built` counts
them. -/
def Carried (built : ModDns → ℕ) (inputs : List Input) (answer : AnswerRecord) (id age : ℕ) :
    Prop :=
  ∃ front call rest before after, inputs = front ++ call :: rest ∧
    (ModDns.new.run front).result = some before ∧
    (before.recv call.memory call.p).result = some after ∧ call.p.dnsQuery ≠ 0 ∧
    ((before.tick call.p.tvSec).findQuery call.p).isSome ∧ answer ∈ call.p.answers ∧
    built before ≤ id ∧ id < built after ∧ age = progress call.p.tvSec rest

theorem Carried.snoc {built : ModDns → ℕ} {inputs : List Input} {answer : AnswerRecord}
    {id age : ℕ} (carried : Carried built inputs answer id age) (input : Input) :
    Carried built (inputs ++ [input]) answer id
      (age + ticksTo input.p.tvSec (lastSecond 0 inputs)) := by
  obtain ⟨front, call, rest, before, after, rfl, reached, returned, response, matched, member,
    lower, upper, rfl⟩ := carried
  refine ⟨front, call, rest ++ [input], before, after, ?_, reached, returned, response, matched,
    member, lower, upper, ?_⟩
  · rw [List.append_assoc, List.cons_append]
  · rw [progress_snoc, lastSecond_append_cons]

/-- What the record holds was carried by an answer, and is as old. -/
def Backed {β : Type} (built : ModDns → ℕ) (inputs : List Input) (kind : AnswerRecord → Prop)
    (value : AnswerRecord → β) (slotAt : ℕ → ℕ) (id slot : ℕ) (filed : β) : Prop :=
  ∃ answer age, Carried built inputs answer id age ∧ Aged slotAt slot age ∧ kind answer ∧
    value answer = filed

/-- What an answer with an address tells, and one with an alias. -/
def addressOf (answer : AnswerRecord) : String × Bytes := (answer.name, answer.ptr)

def aliasOf (answer : AnswerRecord) : String × String := (answer.name, answer.data)

/-- The records built so far. -/
def builtAddrs (this : ModDns) : ℕ := this.addrTable.built

def builtAliases (this : ModDns) : ℕ := this.nameTable.built

/-- A tick drops records whose ticks run out, and the others grow older. -/
theorem backed_tick {α β : Type} {read : α → β} {kind : AnswerRecord → Prop}
    {value : AnswerRecord → β} {built : ModDns → ℕ} {inputs : List Input} {this : ModDns}
    (input : Input) (lastTs : this.lastTs = lastSecond 0 inputs) {pool moved : Pool α}
    (progresses : this.Progresses input.p.tvSec →
      moved = pool.prog (sizeOfTime (input.p.tvSec - this.lastTs)))
    (rests : ¬ this.Progresses input.p.tvSec → moved = pool)
    (backed : ∀ id slot filed, pool.Entry read id slot filed →
      Backed built inputs kind value pool.table.slotAt id slot filed) (id slot : ℕ) (filed : β)
    (entry : moved.Entry read id slot filed) :
    Backed built (inputs ++ [input]) kind value moved.table.slotAt id slot filed := by
  have ages : ∀ ticks, ticksTo input.p.tvSec this.lastTs = ticks →
      pool.Entry read id slot filed → ¬ Table.Visits pool.table.slotAt 0 ticks slot →
      (∀ i, moved.table.slotAt i = pool.table.slotAt (ticks + i)) →
      Backed built (inputs ++ [input]) kind value moved.table.slotAt id slot filed := by
    rintro _ rfl entry unvisited moves
    obtain ⟨answer, age, carried, aged, facts⟩ := backed id slot filed entry
    have carried := carried.snoc input
    rw [← lastTs] at carried
    exact ⟨answer, _, carried, aged.progress unvisited moves, facts⟩
  by_cases progress : this.Progresses input.p.tvSec
  · rw [progresses progress, Pool.entry_prog] at entry
    refine ages _ (if_pos progress) entry.1 entry.2 fun i => ?_
    rw [progresses progress, Table.slotAt, Table.slotAt, Pool.prog_timeslotSize,
      Pool.prog_currTick, ← Nat.add_assoc]
    congr 1
    exact Nat.mod_add_mod _ _ _
  · rw [rests progress] at entry
    refine ages 0 (if_neg progress) entry ?_ fun i => ?_
    · rintro ⟨i, lower, upper, -⟩
      omega
    · rw [rests progress, Nat.zero_add]

/-- Every record stems from an answer of a matched response and is as old as this. -/
structure Sourced (inputs : List Input) (this : ModDns) : Prop where
  kept : this.Kept
  lastTs : this.lastTs = lastSecond 0 inputs
  addrs : ∀ id slot filed, this.addrTable.Entry ARecord.read id slot filed →
    Backed builtAddrs inputs IsAddress addressOf this.addrTable.table.slotAt id slot filed
  aliases : ∀ id slot filed, this.nameTable.Entry CNameRecord.read id slot filed →
    Backed builtAliases inputs IsAlias aliasOf this.nameTable.table.slotAt id slot filed

theorem Sourced.new : Sourced [] ModDns.new where
  kept := Kept.new
  lastTs := rfl
  addrs _ _ _ entry := nomatch entry.1
  aliases _ _ _ entry := nomatch entry.1

theorem Sourced.tick {inputs : List Input} {this : ModDns} (sourced : Sourced inputs this)
    (input : Input) : Sourced (inputs ++ [input]) (this.tick input.p.tvSec) where
  kept := sourced.kept.tick _
  lastTs := by
    rw [tick_lastTs, lastSecond_append_cons]
    rfl
  addrs := by
    apply backed_tick input sourced.lastTs _ _ sourced.addrs
    · exact fun progress => by rw [tick_of_progresses progress]; rfl
    · exact fun still => by rw [tick_of_not_progresses still]
  aliases := by
    apply backed_tick input sourced.lastTs _ _ sourced.aliases
    · exact fun progress => by rw [tick_of_progresses progress]; rfl
    · exact fun still => by rw [tick_of_not_progresses still]

/-- A record put now is not old. -/
theorem aged_cacheSlot {table : Table ℕ} (size : table.timeslotSize = 1200) :
    Aged table.slotAt (cacheSlot table) 0 := by
  refine ⟨Nat.zero_le _, ?_⟩
  rw [cacheSlot, Table.slotAt, size, Nat.add_comm, Nat.sub_zero]

theorem slotAt_congr {table other : Table ℕ} (size : table.timeslotSize = other.timeslotSize)
    (currTick : table.currTick = other.currTick) : table.slotAt = other.slotAt := by
  funext i
  rw [Table.slotAt, Table.slotAt, size, currTick]

/-- Remembering the answers of a matched response keeps every record sourced. -/
theorem Sourced.remembered {inputs : List Input} {this after : ModDns}
    (sourced : Sourced inputs this) {answers : List AnswerRecord}
    (remembered : Remembered answers this after)
    (addrs : ∀ answer ∈ answers, ∀ id, builtAddrs this ≤ id → id < builtAddrs after →
      Carried builtAddrs inputs answer id 0)
    (aliases : ∀ answer ∈ answers, ∀ id, builtAliases this ≤ id → id < builtAliases after →
      Carried builtAliases inputs answer id 0) : Sourced inputs after where
  kept := remembered.kept
  lastTs := remembered.framed.lastTs.trans sourced.lastTs
  addrs := by
    rintro id slot ⟨name, addr⟩ entry
    rw [slotAt_congr (remembered.kept.addrSize.trans sourced.kept.addrSize.symm)
      remembered.framed.addrTick]
    rcases remembered.newAddr id slot name addr entry with
      old | ⟨new, rfl, answer, member, kind, facts⟩
    · exact sourced.addrs id slot (name, addr) old
    · exact ⟨answer, 0, addrs answer member id new (remembered.kept.addrs.live_lt entry.1),
        aged_cacheSlot sourced.kept.addrSize, kind, Prod.ext facts.1 facts.2⟩
  aliases := by
    rintro id slot ⟨name, target⟩ entry
    rw [slotAt_congr (remembered.kept.nameSize.trans sourced.kept.nameSize.symm)
      remembered.framed.nameTick]
    rcases remembered.newAlias id slot name target entry with
      old | ⟨new, rfl, answer, member, kind, facts⟩
    · exact sourced.aliases id slot (name, target) old
    · exact ⟨answer, 0, aliases answer member id new (remembered.kept.names.live_lt entry.1),
        aged_cacheSlot sourced.kept.nameSize, kind, Prod.ext facts.1 facts.2⟩

theorem tick_built (ts : ℤ) (this : ModDns) : builtAddrs (this.tick ts) = builtAddrs this ∧
    builtAliases (this.tick ts) = builtAliases this := by
  unfold ModDns.tick
  split
  · exact ⟨rfl, rfl⟩
  · exact ⟨rfl, rfl⟩

/-- **One call** keeps every record sourced. -/
theorem Sourced.recv {inputs : List Input} {this after : ModDns} (sourced : Sourced inputs this)
    {input : Input} (reached : (ModDns.new.run inputs).result = some this)
    (returned : (this.recv input.memory input.p).result = some after) :
    Sourced (inputs ++ [input]) after := by
  have ticked := sourced.tick input
  have last := returned
  obtain ⟨events, -, handled⟩ := handled_of_recv returned
  have kept := handled.kept ticked.kept
  cases handled with
  | asked => exact ⟨kept, ticked.lastTs, ticked.addrs, ticked.aliases⟩
  | askedAgain => exact ⟨kept, ticked.lastTs, ticked.addrs, ticked.aliases⟩
  | answered id qName logs after response found named only remembered =>
      have marked := ticked.kept.answering id
      have start : Sourced (inputs ++ [input]) { this.tick input.p.tvSec with
          queryTable := (this.tick input.p.tvSec).queryTable.modify id (Query.setHasReply true) } :=
        ⟨marked, ticked.lastTs, ticked.addrs, ticked.aliases⟩
      obtain ⟨addrs, aliases⟩ := tick_built input.p.tvSec this
      apply start.remembered (marked.remember remembered)
      · intro answer member one lower upper
        exact ⟨inputs, input, [], this, _, rfl, reached, last, response, by rw [found]; rfl, member,
          addrs ▸ lower, upper, rfl⟩
      · intro answer member one lower upper
        exact ⟨inputs, input, [], this, _, rfl, reached, last, response, by rw [found]; rfl, member,
          aliases ▸ lower, upper, rfl⟩
  | missed => exact ticked

theorem Sourced.run {inputs : List Input} {this : ModDns}
    (reached : (ModDns.new.run inputs).result = some this) : Sourced inputs this := by
  induction inputs using List.reverseRecOn generalizing this with
  | nil =>
      cases reached
      exact Sourced.new
  | append_singleton inputs input ih =>
      obtain ⟨before, earlier, returned⟩ := Exec.run_snoc_result.mp reached
      exact (ih earlier).recv earlier returned

/-- A live record holds the address that the answer has, and was built no more than
`cacheTtl` ticks ago for this answer of a matched response. -/
def AddrStored (inputs : List Input) (this : ModDns) (answer : AnswerRecord) : Prop :=
  IsAddress answer ∧ ∃ id slot age, this.HasAddr id slot answer.name answer.ptr ∧
    age ≤ cacheTtl ∧ Carried builtAddrs inputs answer id age

/-- Likewise for an alias. -/
def AliasStored (inputs : List Input) (this : ModDns) (answer : AnswerRecord) : Prop :=
  IsAlias answer ∧ ∃ id slot age, this.HasAlias id slot answer.name answer.data ∧
    age ≤ cacheTtl ∧ Carried builtAliases inputs answer id age

theorem Sourced.addrStored {inputs : List Input} {this : ModDns} (sourced : Sourced inputs this)
    {id slot : ℕ} {name : String} {addr : Bytes} (known : this.HasAddr id slot name addr) :
    ∃ answer, AddrStored inputs this answer ∧ answer.name = name ∧ answer.ptr = addr := by
  obtain ⟨answer, age, carried, aged, address, told⟩ := sourced.addrs id slot _ known
  obtain ⟨rfl, rfl⟩ := Prod.mk.inj told
  exact ⟨answer, ⟨address, id, slot, age, known, aged.1, carried⟩, rfl, rfl⟩

theorem Sourced.aliasStored {inputs : List Input} {this : ModDns} (sourced : Sourced inputs this)
    (id slot : ℕ) (name target : String) (known : this.HasAlias id slot name target) :
    ∃ answer, AliasStored inputs this answer ∧ answer.name = name ∧ answer.data = target := by
  obtain ⟨answer, age, carried, aged, isAlias, told⟩ := sourced.aliases id slot _ known
  obtain ⟨rfl, rfl⟩ := Prod.mk.inj told
  exact ⟨answer, ⟨isAlias, id, slot, age, known, aged.1, carried⟩, rfl, rfl⟩

/-- A response without a query changes nothing but the clock. -/
theorem recv_of_missed {p : Property} {this : ModDns} (response : p.dnsQuery ≠ 0)
    (absent : (this.tick p.tvSec).findQuery p = none) (memory : Memory) :
    this.recv memory p = ⟨[.miss (keyOf p) (missMessage p)], some (this.tick p.tvSec)⟩ := by
  rcases recv_spec memory p this with ⟨⟨-, id, found, -⟩, -⟩ | ⟨events, after, same, handled⟩
  · rw [absent] at found
    cases found
  · rw [same]
    cases handled with
    | asked query => exact (response query).elim
    | askedAgain id query => exact (response query).elim
    | answered id _ _ _ _ found =>
        rw [absent] at found
        cases found
    | missed => rfl

/-- What a name that an address resolves to is backed by. -/
theorem Sourced.resolved {inputs : List Input} {this : ModDns} (sourced : Sourced inputs this)
    {addr : Bytes} {recurMax : ℕ} {name : String}
    (resolved : this.resolvAddr addr recurMax = some name) (named : name ≠ "") :
    ∃ answer links, AddrStored inputs this answer ∧ answer.ptr = addr ∧
      Chain (AliasStored inputs this) links name answer.name ∧ links.length ≤ recurMax ∧
      (links.length < recurMax → ∀ id slot, this.nameTable.Live id slot →
        (this.nameTable.object id).cname ≠ name) := by
  obtain ⟨hv, hashes, -⟩ := Option.map_eq_some_iff.mp resolved
  rw [resolvAddr_eq hashes] at resolved
  cases found : this.addrTable.get ARecord.virt hv addr with
  | none =>
      rw [found] at resolved
      exact (named (Option.some.inj resolved).symm).elim
  | some id =>
      rw [found] at resolved
      obtain rfl := Option.some.inj resolved
      obtain ⟨slot, known⟩ := getAddr_eq_some found
      obtain ⟨answer, stored, toldName, toldAddr⟩ := sourced.addrStored known
      obtain ⟨links, chain, short, ends⟩ := follow_chain sourced.aliasStored recurMax
        (this.addrTable.object id).name
      refine ⟨answer, links, stored, toldAddr, toldName.symm ▸ chain, short,
        fun shorter id slot live same => ?_⟩
      exact ends shorter id slot (this.nameTable.object id).qname ⟨live, Prod.ext rfl same⟩

/-- **Resolution is backed by answers.** A name that an address resolves to comes
from an answer with the address and a chain of aliases that leads from the name to
the one of this answer. All these were carried by matched responses and are stored
in live records, built for them no more than `cacheTtl` ticks ago; the chain is as
long as it may be or begins with a name that is no alias. A response without a query
leaves nothing but the clock changed, and the resolution ends whatever the caches
hold. -/
theorem resolution_backed (inputs : List Input) (this : ModDns)
    (reached : (ModDns.new.run inputs).result = some this) :
    (∀ (addr : Bytes) (recurMax : ℕ) (name : String),
      this.resolvAddr addr recurMax = some name → name ≠ "" →
        ∃ answer links, AddrStored inputs this answer ∧ answer.ptr = addr ∧
          Chain (AliasStored inputs this) links name answer.name ∧ links.length ≤ recurMax ∧
          (links.length < recurMax → ∀ id slot, this.nameTable.Live id slot →
            (this.nameTable.object id).cname ≠ name)) ∧
    (∀ memory p, p.dnsQuery ≠ 0 → (this.tick p.tvSec).findQuery p = none →
      this.recv memory p = ⟨[.miss (keyOf p) (missMessage p)], some (this.tick p.tvSec)⟩) ∧
    ∀ (addr : IpAddr) (recurMax : ℕ),
      ∃ name, this.resolvAddr addr.bytes recurMax = some name := by
  have sourced := Sourced.run reached
  exact ⟨fun addr recurMax name resolved named => sourced.resolved resolved named,
    fun memory p response absent => recv_of_missed response absent memory,
    this.resolvAddr_isSome⟩

/-- A query for `name`, and a response with the alias of it and the address of the
alias. -/
def sampleCalls : List Input :=
  [⟨blank, sampleQuery 1⟩, ⟨blank, { sampleQuery 2 with
    dnsQuery := 1
    answers := [⟨"name", "", 5, "alias", []⟩, ⟨"alias", "", 1, "", [10, 0, 0, 9]⟩] }⟩]

/-- The address resolves to `name`, which the response is the reason for. -/
theorem resolution_backed_sample :
    ∃ this, (ModDns.new.run sampleCalls).result = some this ∧
      this.resolvAddr [10, 0, 0, 9] recurMaxDefault = some "name" ∧
      ∃ answer links, AddrStored sampleCalls this answer ∧ answer.ptr = [10, 0, 0, 9] ∧
        Chain (AliasStored sampleCalls this) links "name" answer.name := by
  have computed : (ModDns.new.run sampleCalls).result.bind
      (fun this => this.resolvAddr [10, 0, 0, 9] recurMaxDefault) = some "name" := by
    decide +kernel
  obtain ⟨this, reached, resolved⟩ := Option.bind_eq_some_iff.mp computed
  obtain ⟨answer, links, stored, ptr, chain, -⟩ :=
    (resolution_backed _ this reached).1 _ _ _ resolved (by decide)
  exact ⟨this, reached, resolved, answer, links, stored, ptr, chain⟩

end ModDns

end Devourer
