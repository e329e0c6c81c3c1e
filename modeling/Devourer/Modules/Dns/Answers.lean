import Devourer.Modules.Dns.Origin
import Devourer.Modules.Dns.Resolution
import Mathlib.Data.Set.Card

/-! # The loop over the answers of a response

The loop takes each answer as it comes (`Reaches`). An address is hashed whatever its
length, so the assertion of `calc_hash` fails at the first that has neither four nor
sixteen bytes (`addresses_safe_iff`). An alias is looked up under its own name although
the records answer to their targets, so a repeated answer does not find its record and
gets another one, unless its name is its own target (`no_duplicates_iff`).
-/

namespace Devourer

namespace ModDns

/-- The state in which the loop over the answers begins. -/
def marked (id : ℕ) (this : ModDns) : ModDns :=
  { this with queryTable := this.queryTable.modify id (Query.setHasReply true) }

/-- In the call, a response to a query with a question, the loop over the answers reaches
the answer. -/
def Reaches (calls : List Input) (input : Input) (front : List AnswerRecord)
    (answer : AnswerRecord) (ts : ℤ) (this : ModDns) : Prop :=
  ∃ before id qName rest, (ModDns.new.run calls).result = some before ∧ input.p.dnsQuery ≠ 0 ∧
    (before.tick input.p.tvSec).findQuery input.p = some id ∧
    ((before.tick input.p.tvSec).queryAt id).qName 0 = some qName ∧
    ts = timeOfDouble (since input.p ((before.tick input.p.tvSec).queryAt id)) ∧
    input.p.answers = front ++ answer :: rest ∧
    remember ts front ((before.tick input.p.tvSec).marked id) = some this

/-- No key that the loop hashes has another length than four or sixteen, and no response to a
query with a question aborts. -/
structure AddressesSafe (inputs : List Input) : Prop where
  keys : ∀ calls input, calls ++ [input] <+: inputs → ∀ front answer ts this,
    Reaches calls input front answer ts this → IsAddress answer →
      answer.ptr.length = 4 ∨ answer.ptr.length = 16
  returns : ∀ calls input, calls ++ [input] <+: inputs → ∀ this,
    (ModDns.new.run calls).result = some this → input.p.dnsQuery ≠ 0 → ∀ id,
      (this.tick input.p.tvSec).findQuery input.p = some id →
        ((this.tick input.p.tvSec).queryAt id).name ≠ [] →
          (this.recv input.memory input.p).result ≠ none

/-- The loop has reached an answer with the alias. -/
def Sees (calls : List Input) (pair : String × String) : Prop :=
  ∃ front input, front ++ [input] <+: calls ∧ ∃ earlier answer ts this,
    Reaches front input earlier answer ts this ∧ IsAlias answer ∧ aliasOf answer = pair

/-- The cache of aliases holds one record for each pair of names: a repeated answer finds
the record of its pair, and there are no more records than pairs that were seen. -/
structure NoDuplicates (inputs : List Input) : Prop where
  unique : ∀ calls, calls <+: inputs → ∀ this, (ModDns.new.run calls).result = some this →
    this.nameTable.Keyed CNameRecord.read
  refreshed : ∀ calls input, calls ++ [input] <+: inputs → ∀ front answer ts this,
    Reaches calls input front answer ts this → IsAlias answer → ∀ id slot,
      this.HasAlias id slot answer.name answer.data →
        this.nameTable.get CNameRecord.virt (CNameRecord.calcHash answer.data) answer.name = some id
  counted : ∀ calls, calls <+: inputs → ∀ this, (ModDns.new.run calls).result = some this →
    this.nameTable.table.live.length ≤ Set.ncard {pair | Sees calls pair}

/-- If there is a record with the alias of the answer, then the alias is the name itself,
and is that of no other name. -/
def Settled (answer : AnswerRecord) (this : ModDns) : Prop :=
  ∀ id slot, this.HasAlias id slot answer.name answer.data → answer.name = answer.data ∧
    ∀ other slot' name, this.HasAlias other slot' name answer.data → name = answer.name

/-- If the packet is a response to a query with a question, its addresses have four or sixteen
bytes. -/
def AnswersSized (this : ModDns) (input : Input) : Prop :=
  input.p.dnsQuery ≠ 0 → ∀ id, (this.tick input.p.tvSec).findQuery input.p = some id →
    ((this.tick input.p.tvSec).queryAt id).name ≠ [] → Sized input.p.answers

variable {inputs calls : List Input} {input : Input} {this after : ModDns} {id : ℕ} {ts : ℤ}
  {answers front : List AnswerRecord} {answer : AnswerRecord} {memory : Memory} {p : Property}
  {events : List DnsEvent}

theorem Kept.marked (kept : this.Kept) (id : ℕ) : (this.marked id).Kept := kept.answering id

/-! ## Addresses -/

/-- The first answer with an address of another length. -/
theorem exists_first_unsized (unsized : ¬ Sized answers) :
    ∃ front answer rest, answers = front ++ answer :: rest ∧ Sized front ∧ IsAddress answer ∧
      ¬ (answer.ptr.length = 4 ∨ answer.ptr.length = 16) := by
  let bad : AnswerRecord → Bool := fun answer =>
    IsAddress answer ∧ ¬ (answer.ptr.length = 4 ∨ answer.ptr.length = 16)
  cases found : answers.find? bad with
  | none =>
      refine (unsized fun answer member address => ?_).elim
      by_contra wrong
      exact List.find?_eq_none.mp found answer member (decide_eq_true ⟨address, wrong⟩)
  | some answer =>
      obtain ⟨isBad, front, rest, split, good⟩ := List.find?_eq_some_iff_append.mp found
      obtain ⟨address, wrong⟩ := of_decide_eq_true isBad
      refine ⟨front, answer, rest, split, fun other member isAddress => ?_, address, wrong⟩
      by_contra isWrong
      have fine := good other member
      rw [Bool.not_eq_true'] at fine
      exact of_decide_eq_false fine ⟨isAddress, isWrong⟩

/-- **When no response runs into the assertion.** All keys that the loop hashes have four or
sixteen bytes, and responses to queries with a question return, if and only if the
addresses of these responses have four or sixteen bytes. -/
theorem addresses_safe_iff (inputs : List Input) : AddressesSafe inputs ↔
    ∀ calls input, calls ++ [input] <+: inputs → ∀ this,
      (ModDns.new.run calls).result = some this → AnswersSized this input := by
  constructor
  · intro safe calls input prior this reached response id found asks
    by_contra unsized
    obtain ⟨front, answer, rest, split, sized, address, wrong⟩ := exists_first_unsized unsized
    obtain ⟨qName, named⟩ : ∃ qName, ((this.tick input.p.tvSec).queryAt id).qName 0 = some qName :=
      Option.ne_none_iff_exists'.mp fun none => asks (qName_eq_none.mp none)
    obtain ⟨middle, remembered⟩ := remember_isSome
      (timeOfDouble (since input.p ((this.tick input.p.tvSec).queryAt id))) sized
      ((this.tick input.p.tvSec).marked id)
    exact wrong (safe.keys calls input prior front answer _ middle
      ⟨this, id, qName, rest, reached, response, found, named, rfl, split, remembered⟩ address)
  · intro sized
    refine ⟨fun calls input prior front answer ts this reaches address => ?_,
      fun calls input prior this reached response id found asks aborted => ?_⟩
    · obtain ⟨before, id, qName, rest, reached, response, found, named, -, split, -⟩ := reaches
      have asks : ((before.tick input.p.tvSec).queryAt id).name ≠ [] := by
        intro none
        cases named.symm.trans (qName_eq_none.mpr none)
      refine sized calls input prior before reached response id found asks answer ?_ address
      rw [split]
      exact List.mem_append_right _ List.mem_cons_self
    · rcases recv_spec input.memory input.p this with
        ⟨⟨-, other, found', fails⟩, -⟩ | ⟨events, next, same, -⟩
      · cases found.symm.trans found'
        exact fails.elim asks fun wrong =>
          wrong (sized calls input prior this reached response id found asks)
      · rw [same] at aborted
        cases aborted

/-- A response with an address of five bytes. -/
def oddReply : Property :=
  { sampleReply 2 with answers := [⟨"name", "", 1, "", [10, 0, 0, 9, 0]⟩] }

/-- **The response aborts.** -/
theorem oddReply_aborts : ¬ AddressesSafe [⟨blank, sampleQuery 1⟩, ⟨blank, oddReply⟩] ∧
    (ModDns.new.run [⟨blank, sampleQuery 1⟩, ⟨blank, oddReply⟩]).result.isNone := by
  refine ⟨fun safe => ?_, by decide +kernel⟩
  have computed : (ModDns.new.run [⟨blank, sampleQuery 1⟩]).result.map (fun this => decide
      ((this.tick oddReply.tvSec).findQuery oddReply = some 0 ∧
        ((this.tick oddReply.tvSec).queryAt 0).name ≠ [] ∧
        (this.recv blank oddReply).result.isNone)) = some true := by
    decide +kernel
  obtain ⟨this, reached, facts⟩ := Option.map_eq_some_iff.mp computed
  obtain ⟨found, asks, aborted⟩ := of_decide_eq_true facts
  exact safe.returns [⟨blank, sampleQuery 1⟩] ⟨blank, oddReply⟩ (List.prefix_refl _) this reached
    (by decide) 0 found asks (Option.isNone_iff_eq_none.mp aborted)

/-! ## Aliases -/

/-- What holds when the loop begins and is kept by every answer that it reaches holds
wherever it stands. -/
theorem remember_front {motive : List AnswerRecord → ModDns → Prop} {start : ModDns}
    (initial : motive [] start)
    (step : ∀ front answer rest, answers = front ++ answer :: rest → ∀ this after,
      remember ts front start = some this → this.addRecord ts answer = some after →
      motive front this → motive (front ++ [answer]) after)
    {rest : List AnswerRecord} (split : answers = front ++ rest)
    (remembered : remember ts front start = some this) : motive front this := by
  induction front using List.reverseRecOn generalizing rest this with
  | nil =>
      cases remembered
      exact initial
  | append_singleton front answer ih =>
      rw [remember_append] at remembered
      obtain ⟨middle, earlier, added⟩ := Option.bind_eq_some_iff.mp remembered
      obtain ⟨after, added, same⟩ := Option.bind_eq_some_iff.mp added
      cases same
      rw [List.append_assoc, List.singleton_append] at split
      exact step front answer rest split middle this earlier added (ih split earlier)

/-- The loop of a response that returns has reached all its answers. -/
theorem reaches_of_mem (reached : (ModDns.new.run calls).result = some this)
    (returned : (this.recv input.memory input.p).result = some after)
    (response : input.p.dnsQuery ≠ 0)
    (matched : ((this.tick input.p.tvSec).findQuery input.p).isSome)
    (member : answer ∈ input.p.answers) :
    ∃ front ts middle, Reaches calls input front answer ts middle := by
  obtain ⟨events, -, handled⟩ := handled_of_recv returned
  cases handled with
  | asked query => exact (response query).elim
  | askedAgain _ query => exact (response query).elim
  | answered id qName logs _ _ found named _ remembered =>
      obtain ⟨front, rest, split⟩ := List.append_of_mem member
      rw [split, remember_append] at remembered
      obtain ⟨middle, earlier, -⟩ := Option.bind_eq_some_iff.mp remembered
      exact ⟨front, _, middle, this, id, qName, rest, reached, response, found, named, rfl, split,
        earlier⟩
  | missed _ absent =>
      rw [absent] at matched
      cases matched

/-- Every live record holds a pair that was seen. -/
theorem sees_of_live (reached : (ModDns.new.run calls).result = some this) {slot : ℕ}
    (live : this.nameTable.Live id slot) :
    Sees calls (CNameRecord.read (this.nameTable.object id)) := by
  have known : this.HasAlias id slot (this.nameTable.object id).qname
    (this.nameTable.object id).cname := ⟨live, rfl⟩
  obtain ⟨answer, ⟨isAlias, id, slot, age, -, -, carried⟩, named, aliased⟩ :=
    (Sourced.run reached).aliasStored id slot _ _ known
  obtain ⟨front, input, rest, before, after, rfl, earlier, returned, response, matched, member,
    -⟩ := carried
  obtain ⟨previous, ts, middle, reaches⟩ :=
    reaches_of_mem earlier returned response matched member
  refine ⟨front, input, ⟨rest, ?_⟩, previous, answer, ts, middle, reaches, isAlias,
    Prod.ext named aliased⟩
  rw [List.append_assoc, List.singleton_append]

/-- Only finitely many pairs are seen. -/
theorem sees_finite (calls : List Input) : {pair | Sees calls pair}.Finite := by
  refine Set.Finite.subset (List.finite_toSet
    (calls.flatMap fun input => input.p.answers.map aliasOf)) ?_
  rintro pair ⟨front, input, prior, earlier, answer, ts, this, reaches, -, rfl⟩
  obtain ⟨-, -, -, rest, -, -, -, -, -, split, -⟩ := reaches
  have call : input ∈ calls := prior.subset (List.mem_append_right _ List.mem_cons_self)
  refine List.mem_flatMap.mpr ⟨input, call, List.mem_map_of_mem ?_⟩
  rw [split]
  exact List.mem_append_right _ List.mem_cons_self

/-! ### One record for each pair -/

theorem aliasesKeyed_tick (keyed : this.nameTable.Keyed CNameRecord.read) (second : ℤ) :
    (this.tick second).nameTable.Keyed CNameRecord.read := by
  by_cases progress : this.Progresses second
  · rw [tick_of_progresses progress]
    exact keyed.prog _
  · rw [tick_of_not_progresses progress]
    exact keyed

/-- A settled alias is found where it is known, so it is not put again. -/
theorem Settled.addCName (settled : Settled answer this) (kept : this.Kept)
    (keyed : this.nameTable.Keyed CNameRecord.read) :
    (this.addCName ts answer).nameTable.Keyed CNameRecord.read := by
  unfold ModDns.addCName
  cases found : this.nameTable.get CNameRecord.virt (CNameRecord.calcHash answer.data)
      answer.name with
  | some id => exact keyed.modify (CNameRecord.read_update ts) id
  | none =>
      refine keyed.add kept.names (fun id slot live same => ?_) kept.nameFits
      have known : this.HasAlias id slot answer.name answer.data := ⟨live, same⟩
      have own := (settled id slot known).1
      rw [← own] at known
      exact getAlias_eq_none found id slot _ known

/-- While the aliases are settled, the loop keeps one record for each pair. -/
theorem keyed_front {start : ModDns} (kept : start.Kept)
    (keyed : start.nameTable.Keyed CNameRecord.read)
    (settled : ∀ front answer rest, answers = front ++ answer :: rest → ∀ this,
      remember ts front start = some this → IsAlias answer → Settled answer this)
    {rest : List AnswerRecord} (split : answers = front ++ rest)
    (remembered : remember ts front start = some this) :
    this.nameTable.Keyed CNameRecord.read := by
  refine remember_front (motive := fun _ this => this.nameTable.Keyed CNameRecord.read) keyed
    (fun front answer rest split this after earlier added keyed => ?_) split remembered
  have here := (kept.remember earlier).kept
  cases recordAdded_of_addRecord added with
  | address after address added =>
      rw [(here.addAddress added).2.2.1]
      exact keyed
  | isAlias isAlias =>
      exact (settled front answer rest split this earlier isAlias).addCName here keyed
  | other => exact keyed

/-- While the aliases are settled, there is one record for each pair. -/
theorem keyed_run (settled : ∀ calls input, calls ++ [input] <+: inputs → ∀ front answer ts this,
      Reaches calls input front answer ts this → IsAlias answer → Settled answer this)
    (reached : (ModDns.new.run inputs).result = some this) :
    this.nameTable.Keyed CNameRecord.read := by
  refine run_induction (fun calls _ this => calls <+: inputs →
    this.nameTable.Keyed CNameRecord.read) (fun _ => Pool.Keyed.new 1200)
    (fun calls input this events after earlier _ handled keyed prior => ?_) reached
      (List.prefix_refl inputs)
  have before := aliasesKeyed_tick (keyed ((List.prefix_append calls [input]).trans prior))
    input.p.tvSec
  have kept := (Kept.run earlier).tick input.p.tvSec
  cases handled with
  | asked => exact before
  | askedAgain => exact before
  | answered id qName logs _ response found named only remembered =>
      have whole : input.p.answers = input.p.answers ++ [] := (List.append_nil _).symm
      refine keyed_front (kept.answering id) before
        (fun front answer rest split middle reaches isAlias => ?_) whole remembered
      exact settled calls input prior front answer _ middle
        ⟨this, id, qName, rest, earlier, response, found, named, rfl, split, reaches⟩ isAlias
  | missed => exact before

/-! ### Which record an alias finds -/

/-- The aliases stand in the order in which they were put, and a record in which a name is
its own alias came before all others for this alias. -/
structure Filed (this : ModDns) : Prop where
  stacked : this.nameTable.Stacked
  first : ∀ id slot other slot' target name, this.HasAlias id slot target target →
    this.HasAlias other slot' name target → name ≠ target → id < other

theorem Filed.new : ModDns.new.Filed where
  stacked := Pool.Stacked.new 1200
  first _ _ _ _ _ _ known := nomatch known.1

theorem Filed.congr (filed : this.Filed) (same : after.nameTable = this.nameTable) :
    after.Filed := by
  refine ⟨same ▸ filed.stacked, ?_⟩
  unfold HasAlias
  rw [same]
  exact filed.first

theorem Filed.tick (filed : this.Filed) (second : ℤ) : (this.tick second).Filed := by
  by_cases progress : this.Progresses second
  · rw [tick_of_progresses progress]
    refine ⟨filed.stacked.prog _, fun id slot other slot' target name own known => ?_⟩
    exact filed.first id slot other slot' target name ((Pool.entry_prog _ _ _ _).mp own).1
      ((Pool.entry_prog _ _ _ _).mp known).1
  · rw [tick_of_not_progresses progress]
    exact filed.congr rfl

/-- A name is only put as its own alias when no record has this alias. -/
theorem Filed.addCName (filed : this.Filed) (kept : this.Kept) (ts : ℤ) (answer : AnswerRecord) :
    (this.addCName ts answer).Filed := by
  refine ⟨?_, fun id slot other slot' target name own known differ => ?_⟩
  · unfold ModDns.addCName
    split
    · exact filed.stacked
    · exact filed.stacked.add kept.names _ _
  have facts := (kept.addCName ts answer).2.2.2
  rcases (facts _ _ _ _).mp own with old | ⟨unknown, rfl, -, named, aliased⟩
  · rcases (facts _ _ _ _).mp known with old' | ⟨-, rfl, -⟩
    · exact filed.first id slot other slot' target name old old' differ
    · exact kept.names.live_lt old.1
  · rcases (facts _ _ _ _).mp known with old' | ⟨-, -, -, named', -⟩
    · rw [named] at unknown
      exact (unknown other slot' name old').elim
    · exact (differ (named'.symm.trans named)).elim

theorem Filed.remember (filed : this.Filed) (kept : this.Kept)
    (remembered : remember ts answers this = some after) : after.Filed := by
  refine remember_induction (motive := Filed) (fun answer _ _ this after kept added filed => ?_)
    (fun answer _ _ this kept filed => filed.addCName kept ts answer) kept remembered filed
  exact filed.congr (kept.addAddress added).2.2.1

theorem Filed.run (reached : (ModDns.new.run inputs).result = some this) : this.Filed := by
  refine run_induction (fun _ _ this => this.Filed) Filed.new
    (fun calls input this events after earlier _ handled filed => ?_) reached
  have before := filed.tick input.p.tvSec
  have kept := (Kept.run earlier).tick input.p.tvSec
  cases handled with
  | asked => exact before.congr rfl
  | askedAgain => exact before.congr rfl
  | answered id _ _ _ _ _ _ _ remembered =>
      have marked : ((this.tick input.p.tvSec).marked id).Filed := before.congr rfl
      exact marked.remember (kept.marked id) remembered
  | missed => exact before

/-- The order of the aliases holds wherever the loop stands. -/
theorem Filed.reaches (reaches : Reaches calls input front answer ts this) : this.Filed := by
  obtain ⟨before, id, -, -, reached, -, -, -, -, -, remembered⟩ := reaches
  have filed : ((before.tick input.p.tvSec).marked id).Filed :=
    ((Filed.run reached).tick input.p.tvSec).congr rfl
  exact filed.remember (((Kept.run reached).tick _).marked id) remembered

/-- If a repeated alias finds its record, it is settled. -/
theorem Filed.settled (filed : this.Filed) (found : ∀ id slot,
      this.HasAlias id slot answer.name answer.data →
        this.nameTable.get CNameRecord.virt (CNameRecord.calcHash answer.data) answer.name =
          some id) : Settled answer this := by
  intro id slot known
  have same := found id slot known
  obtain ⟨slot', own⟩ := getAlias_eq_some same
  have self : answer.name = answer.data := by
    have reads := own.2.symm.trans known.2
    exact (Prod.mk.inj reads).2
  refine ⟨self, fun other slot' name aliased => ?_⟩
  by_contra differ
  rw [← self] at known aliased
  have later := filed.first id slot other slot' answer.name name known aliased differ
  have earlier := filed.stacked.le_of_get same aliased.1
    ⟨rfl, decide_eq_true (Prod.mk.inj aliased.2).2⟩
  exact Nat.not_lt.mpr earlier later

/-- A settled alias that is repeated finds its record. -/
theorem Settled.get_eq_some (settled : Settled answer this)
    (keyed : this.nameTable.Keyed CNameRecord.read) {slot : ℕ}
    (known : this.HasAlias id slot answer.name answer.data) :
    this.nameTable.get CNameRecord.virt (CNameRecord.calcHash answer.data) answer.name =
      some id := by
  obtain ⟨self, only⟩ := settled id slot known
  cases found : this.nameTable.get CNameRecord.virt (CNameRecord.calcHash answer.data)
      answer.name with
  | none =>
      have own := known
      rw [← self] at own
      exact (getAlias_eq_none found id slot _ own).elim
  | some other =>
      obtain ⟨slot', other'⟩ := getAlias_eq_some found
      have aliased := other'
      rw [self] at aliased
      have named := only other slot' _ aliased
      have same := other'.2.trans ((Prod.ext named self).trans known.2.symm)
      rw [keyed other slot' id slot other'.1 known.1 same]

/-- **When the cache of aliases holds no duplicates.** There is one record for each pair, and
a repeated answer refreshes it, if and only if every repeated answer gives a name as its own
alias that is the alias of no other name. -/
theorem no_duplicates_iff (inputs : List Input) : NoDuplicates inputs ↔
    ∀ calls input, calls ++ [input] <+: inputs → ∀ front answer ts this,
      Reaches calls input front answer ts this → IsAlias answer → Settled answer this := by
  constructor
  · intro single calls input prior front answer ts this reaches isAlias
    exact (Filed.reaches reaches).settled fun id slot =>
      single.refreshed calls input prior front answer ts this reaches isAlias id slot
  · intro settled
    have unique : ∀ calls, calls <+: inputs → ∀ this, (ModDns.new.run calls).result = some this →
        this.nameTable.Keyed CNameRecord.read := fun calls prior this reached =>
      keyed_run (fun front input earlier => settled front input (earlier.trans prior)) reached
    refine ⟨unique, fun calls input prior front answer ts this reaches isAlias id slot known => ?_,
      fun calls prior this reached => ?_⟩
    · have here := settled calls input prior front answer ts this reaches isAlias
      obtain ⟨before, query, qName, rest, reached, response, found, named, rfl, split,
        remembered⟩ := reaches
      have earlier := (List.prefix_append calls [input]).trans prior
      have start := aliasesKeyed_tick (unique calls earlier before reached) input.p.tvSec
      have kept := ((Kept.run reached).tick input.p.tvSec).marked query
      refine here.get_eq_some (keyed_front kept start (fun front' answer' rest' split' this'
        remembered' => ?_) split remembered) known
      exact settled calls input prior front' answer' _ this'
        ⟨before, query, qName, rest', reached, response, found, named, rfl, split', remembered'⟩
    · rw [Set.ncard_eq_toFinset_card _ (sees_finite calls)]
      refine (unique calls prior this reached).length_le (Kept.run reached).names
        fun id slot live => ?_
      rw [Set.Finite.mem_toFinset]
      exact sees_of_live reached live

/-- A response with an alias. -/
def aliasReply (tvSec : UInt32) : Property :=
  { sampleReply tvSec with answers := [⟨"name", "CNAME", 5, "alias", []⟩] }

/-- **A repeated response doubles its alias.** -/
theorem repeatedAlias_doubled : ¬ NoDuplicates
    [⟨blank, sampleQuery 1⟩, ⟨blank, aliasReply 2⟩, ⟨blank, aliasReply 3⟩] := by
  intro single
  have computed : (ModDns.new.run
      [⟨blank, sampleQuery 1⟩, ⟨blank, aliasReply 2⟩, ⟨blank, aliasReply 3⟩]).result.map
        (fun this => decide (this.nameTable.table.live.map Prod.fst = [1, 0] ∧
          CNameRecord.read (this.nameTable.object 0) =
            CNameRecord.read (this.nameTable.object 1))) = some true := by
    decide +kernel
  obtain ⟨this, reached, facts⟩ := Option.map_eq_some_iff.mp computed
  obtain ⟨ids, same⟩ := of_decide_eq_true facts
  have live : ∀ id ∈ [1, 0], ∃ slot, this.nameTable.Live id slot := by
    intro id member
    rw [← ids] at member
    obtain ⟨entry, inside, rfl⟩ := List.mem_map.mp member
    exact ⟨entry.2, inside⟩
  obtain ⟨slot, first⟩ := live 0 (by decide)
  obtain ⟨slot', second⟩ := live 1 (by decide)
  have one := single.unique _ (List.prefix_refl _) this reached 0 slot 1 slot' first second same
  cases one

end ModDns

end Devourer
