import Devourer.Modules.Dns.Answers
import Devourer.Modules.Dns.Freshness
import Mathlib.Order.Bounds.Basic

/-! # The times of records

Records are to show the second of the response that built them and of the last that had
their address or alias. The loop over the answers stands where `ts` is the latency of the
response, though, and so this is the time that records get. `stamps_kept_iff` says when it
makes no difference.
-/

namespace Devourer

namespace ARecord

theorem update_update (ts : ℤ) (record : ARecord) :
    (record.update ts).update ts = record.update ts := by
  unfold update
  by_cases later : record.lastTs < ts
  · simp [later]
  · simp [later]

theorem lastTs_update (ts : ℤ) (record : ARecord) :
    (record.update ts).lastTs = max record.lastTs ts := by
  unfold update
  split
  · exact (max_eq_right (Int.le_of_lt ‹_›)).symm
  · exact (max_eq_left (Int.not_lt.mp ‹_›)).symm

theorem initTs_update (ts : ℤ) (record : ARecord) :
    (record.update ts).initTs = record.initTs := by
  unfold update
  split <;> rfl

theorem key_update (ts : ℤ) (record : ARecord) : (record.update ts).key = record.key :=
  congrArg Prod.snd (record.read_update ts)

/-- A record that is as young as the update stays as it is. -/
theorem update_of_lastTs {ts : ℤ} {record : ARecord} (same : record.lastTs = ts) :
    record.update ts = record := if_neg fun later => Int.ne_of_lt later same

end ARecord

namespace ModDns

/-- The seconds of the responses since the record was built that belonged to a live query and
had the address. -/
def carriedSince (id : ℕ) (addr : Bytes) (inputs : List Input) : Set ℤ :=
  {second | ∃ front input before after, front ++ [input] <+: inputs ∧
    (ModDns.new.run front).result = some before ∧
    (before.recv input.memory input.p).result = some after ∧ id < builtAddrs after ∧
    before.Matches input ∧ Carry addr input.p.answers ∧ input.p.tvSec = second}

/-- The record that an answer with an alias updates or builds. -/
def aliasFor (answer : AnswerRecord) (this : ModDns) : ℕ :=
  (this.nameTable.get CNameRecord.virt (CNameRecord.calcHash answer.data) answer.name).getD
    this.nameTable.built

/-- In the call, the loop over the answers updates or builds the record of an alias. -/
def Processes (id : ℕ) (calls : List Input) (input : Input) : Prop :=
  ∃ front answer ts this, Reaches calls input front answer ts this ∧ IsAlias answer ∧
    this.aliasFor answer = id

/-- A record of an address shows the second of the response that built it, and the latest
second of the responses that have had its address since. -/
structure AddrStamped (calls : List Input) (id : ℕ) (record : ARecord) : Prop where
  built : ∃ call, BuiltIn builtAddrs calls id call ∧ record.initTs = call.p.tvSec
  carried : IsGreatest (carriedSince id record.key calls) record.lastTs

def AddrsStamped (calls : List Input) (this : ModDns) : Prop :=
  ∀ id slot, this.addrTable.Live id slot → AddrStamped calls id (this.addrTable.object id)

/-- A live record of an alias shows the second of the last response processed for it. -/
def AliasesStamped (calls : List Input) (this : ModDns) : Prop :=
  ∀ id slot, this.nameTable.Live id slot → ∃ call,
    Exec.LastOf (Processes id) calls call ∧ (this.nameTable.object id).lastTs = call.p.tvSec

/-- All live records show the times of packets, after every call. -/
def StampsKept (inputs : List Input) : Prop :=
  ∀ calls, calls <+: inputs → ∀ this, (ModDns.new.run calls).result = some this →
    AddrsStamped calls this ∧ AliasesStamped calls this

/-- The packet is a response to the query that does not abort. -/
structure Answers (this : ModDns) (input : Input) (query : ℕ) : Prop where
  response : input.p.dnsQuery ≠ 0
  found : (this.tick input.p.tvSec).findQuery input.p = some query
  asks : ((this.tick input.p.tvSec).queryAt query).name ≠ []
  sized : Sized input.p.answers

/-- The whole seconds since the last time of the query, as a difference of doubles. -/
def latency (this : ModDns) (input : Input) (query : ℕ) : ℤ :=
  timeOfDouble (since input.p ((this.tick input.p.tvSec).queryAt query))

/-- The latency of the response is its second, or neither is later than the last time of the
live record that has the address of the answer. -/
def AddressStamp (this : ModDns) (input : Input) (query : ℕ) (answer : AnswerRecord) : Prop :=
  this.latency input query = input.p.tvSec ∨
    ∃ id slot, (this.tick input.p.tvSec).addrTable.Live id slot ∧
      ((this.tick input.p.tvSec).addrTable.object id).key = answer.ptr ∧
      this.latency input query ≤ ((this.tick input.p.tvSec).addrTable.object id).lastTs ∧
      input.p.tvSec ≤ ((this.tick input.p.tvSec).addrTable.object id).lastTs

variable {inputs calls : List Input} {input : Input} {this after start : ModDns} {id slot : ℕ}
  {ts : ℤ} {answers front : List AnswerRecord} {answer : AnswerRecord} {addr : Bytes} {query : ℕ}

/-! ## One answer -/

/-- What an answer does to the records of addresses: those of its own address are updated, and
if there is none, one is built. -/
theorem addAddress_object (kept : this.Kept) (keyed : this.Keyed)
    (added : this.addAddress ts answer = some after) (live : after.addrTable.Live id slot) :
    this.addrTable.Live id slot ∧ after.addrTable.object id =
        (if (this.addrTable.object id).key = answer.ptr then (this.addrTable.object id).update ts
        else this.addrTable.object id) ∨
      id = this.addrTable.built ∧ (∀ other slot', this.addrTable.Live other slot' →
        (this.addrTable.object other).key ≠ answer.ptr) ∧
        ∃ hv, after.addrTable.object id = ⟨answer.name, answer.ptr, ts, ts, hv⟩ := by
  cases addressAdded_of_addAddress added with
  | known hv one hashes found =>
      obtain ⟨slot', known, reads⟩ := getAddr_eq_some found
      have own : (this.addrTable.object one).key = answer.ptr := congrArg Prod.snd reads
      refine .inl ⟨live, ?_⟩
      by_cases self : id = one
      · subst self
        rw [if_pos own]
        exact Pool.modify_object_self id _
      · rw [if_neg]
        · exact Pool.modify_object_of_ne self _
        · exact fun same => self (keyed.addrs id slot one slot' live known (same.trans own.symm))
  | fresh hv hashes found =>
      have absent : ∀ other slot', this.addrTable.Live other slot' →
          (this.addrTable.object other).key ≠ answer.ptr := fun other slot' live own =>
        kept.getAddr_eq_none hashes found other slot' _ ⟨live, Prod.ext rfl own⟩
      rcases (Pool.live_build_put_iff kept.addrFits id slot).mp live with old | ⟨rfl, -⟩
      · refine .inl ⟨old, ?_⟩
        rw [if_neg (absent id slot old)]
        exact Pool.build_object_of_lt (kept.addrs.live_lt old) _
      · exact .inr ⟨rfl, absent, hv, Pool.build_object_self _⟩

/-- What an answer does to the records of aliases: it updates or builds one. -/
theorem addCName_object (kept : this.Kept) (ts : ℤ) (answer : AnswerRecord) :
    (∃ slot, (this.addCName ts answer).nameTable.Live (this.aliasFor answer) slot) ∧
      ((this.addCName ts answer).nameTable.object (this.aliasFor answer)).lastTs = ts ∧
      ∀ id slot, (this.addCName ts answer).nameTable.Live id slot → id ≠ this.aliasFor answer →
        this.nameTable.Live id slot ∧
          (this.addCName ts answer).nameTable.object id = this.nameTable.object id := by
  unfold ModDns.addCName aliasFor
  cases found : this.nameTable.get CNameRecord.virt (CNameRecord.calcHash answer.data)
      answer.name with
  | some one =>
      obtain ⟨slot, known⟩ := getAlias_eq_some found
      refine ⟨⟨slot, known.1⟩, ?_, fun id slot live other => ⟨live, ?_⟩⟩
      · exact congrArg CNameRecord.lastTs (Pool.modify_object_self one (CNameRecord.update ts))
      · exact Pool.modify_object_of_ne other _
  | none =>
      refine ⟨⟨_, (Pool.live_build_put_iff kept.nameFits _ _).mpr (.inr ⟨rfl, rfl⟩)⟩, ?_,
        fun id slot live other => ?_⟩
      · exact congrArg CNameRecord.lastTs (Pool.build_object_self _)
      · rcases (Pool.live_build_put_iff kept.nameFits id slot).mp live with old | ⟨new, -⟩
        · exact ⟨old, Pool.build_object_of_lt (kept.names.live_lt old) _⟩
        · exact (other new).elim

/-! ## The loop over the answers -/

theorem carry_snoc : Carry addr (front ++ [answer]) ↔
    Carry addr front ∨ IsAddress answer ∧ answer.ptr = addr := by
  unfold Carry
  simp only [List.mem_append, List.mem_singleton, or_and_right, exists_or, exists_eq_left]

/-- What the loop has done to the records of addresses: those that were live are updated if
their address has come, and the others are new, for addresses that have come. -/
def AddrsTouched (ts : ℤ) (start : ModDns) (front : List AnswerRecord) (this : ModDns) : Prop :=
  ∀ id slot, this.addrTable.Live id slot →
    start.addrTable.Live id slot ∧
        (Carry (start.addrTable.object id).key front → this.addrTable.object id =
          (start.addrTable.object id).update ts) ∧
        (¬ Carry (start.addrTable.object id).key front →
          this.addrTable.object id = start.addrTable.object id) ∨
      start.addrTable.built ≤ id ∧ Carry (this.addrTable.object id).key front ∧
        (∀ other slot', start.addrTable.Live other slot' →
          (start.addrTable.object other).key ≠ (this.addrTable.object id).key) ∧
        (this.addrTable.object id).initTs = ts ∧ (this.addrTable.object id).lastTs = ts

theorem AddrsTouched.addAddress (touched : AddrsTouched ts start front this) (kept : this.Kept)
    (keyed : this.Keyed) (remembered : Remembered front start this) (address : IsAddress answer)
    (added : this.addAddress ts answer = some after) :
    AddrsTouched ts start (front ++ [answer]) after := by
  intro id slot live
  rcases addAddress_object kept keyed added live with ⟨old, object⟩ | ⟨rfl, absent, hv, object⟩
  · rcases touched id slot old with ⟨before, carried, other⟩ | ⟨new, came, unknown, init, last⟩
    · refine .inl ⟨before, fun came => ?_, fun quiet => ?_⟩
      · by_cases already : Carry (start.addrTable.object id).key front
        · rw [object, carried already, ARecord.update_update, ite_self]
        · have own := (carry_snoc.mp came).resolve_left already
          rw [object, other already, if_pos own.2.symm]
      · rw [carry_snoc, not_or] at quiet
        rw [object, other quiet.1, if_neg fun own => quiet.2 ⟨address, own.symm⟩]
    · rw [ARecord.update_of_lastTs last, ite_self] at object
      rw [object]
      exact .inr ⟨new, carry_snoc.mpr (.inl came), unknown, init, last⟩
  · refine .inr ⟨remembered.framed.addrBuilt, ?_⟩
    rw [object]
    refine ⟨carry_snoc.mpr (.inr ⟨address, rfl⟩), fun other slot' live' => ?_, rfl, rfl⟩
    have known := remembered.keepsAddr other slot' _ _ ⟨live', rfl⟩
    have same : (this.addrTable.object other).key = (start.addrTable.object other).key :=
      congrArg Prod.snd known.2
    exact same ▸ absent other slot' known.1

/-- Answers without an address leave these records alone. -/
theorem AddrsTouched.other (touched : AddrsTouched ts start front this)
    (other : ¬ IsAddress answer) (same : after.addrTable = this.addrTable) :
    AddrsTouched ts start (front ++ [answer]) after := by
  have alike : ∀ addr, Carry addr (front ++ [answer]) ↔ Carry addr front := fun addr =>
    carry_snoc.trans (or_iff_left fun own => other own.1)
  unfold AddrsTouched
  simp only [alike, same]
  exact touched

theorem addrs_of_remember (kept : start.Kept) (keyed : start.Keyed)
    (remembered : remember ts answers start = some after) :
    AddrsTouched ts start answers after := by
  refine remember_front (motive := AddrsTouched ts start) ?_
    (fun front answer rest split this next earlier added touched => ?_)
    (List.append_nil answers).symm remembered
  · intro id slot live
    have none : ∀ addr, ¬ Carry addr [] := fun _ carry => by
      obtain ⟨_, member, -⟩ := carry
      cases member
    exact .inl ⟨live, fun came => (none _ came).elim, fun _ => rfl⟩
  · have done := kept.remember earlier
    cases recordAdded_of_addRecord added with
    | address next address added =>
        exact touched.addAddress done.kept (keyed.remember kept earlier) done address added
    | isAlias isAlias =>
        exact touched.other isAlias.not_isAddress (done.kept.addCName ts answer).2.2.1
    | other address => exact touched.other address rfl

/-- An address that has come has a live record. -/
theorem live_of_carry (kept : start.Kept) (remembered : remember ts answers start = some after)
    (came : Carry addr answers) :
    ∃ id slot, after.addrTable.Live id slot ∧ (after.addrTable.object id).key = addr := by
  obtain ⟨answer, member, address, rfl⟩ := came
  obtain ⟨id, slot, name, live, reads⟩ := remember_hasAddr kept address member remembered
  exact ⟨id, slot, live, congrArg Prod.snd reads⟩

/-- The loop processes the record of an alias in one of the answers. -/
def Touches (ts : ℤ) (start : ModDns) (answers : List AnswerRecord) (id : ℕ) : Prop :=
  ∃ front answer rest this, answers = front ++ answer :: rest ∧
    remember ts front start = some this ∧ IsAlias answer ∧ this.aliasFor answer = id

theorem touches_snoc (remembered : remember ts front start = some this) :
    Touches ts start (front ++ [answer]) id ↔
      Touches ts start front id ∨ IsAlias answer ∧ this.aliasFor answer = id := by
  constructor
  · rintro ⟨first, other, rest, middle, split, earlier, isAlias, own⟩
    rcases Exec.snoc_cases split with ⟨rfl, rfl, -⟩ | ⟨between, -, rfl⟩
    · cases remembered.symm.trans earlier
      exact .inr ⟨isAlias, own⟩
    · exact .inl ⟨first, other, between, middle, rfl, earlier, isAlias, own⟩
  · rintro (⟨first, other, rest, middle, rfl, earlier, isAlias, own⟩ | ⟨isAlias, own⟩)
    · exact ⟨first, other, rest ++ [answer], middle, by simp, earlier, isAlias, own⟩
    · exact ⟨front, answer, [], this, rfl, remembered, isAlias, own⟩

/-- What the loop has done to the records of aliases: those that it processed show its time, and
the others are as they were. -/
structure AliasesTouched (ts : ℤ) (start : ModDns) (front : List AnswerRecord) (this : ModDns) :
    Prop where
  processed : ∀ id, Touches ts start front id →
    (∃ slot, this.nameTable.Live id slot) ∧ (this.nameTable.object id).lastTs = ts
  other : ∀ id slot, this.nameTable.Live id slot → ¬ Touches ts start front id →
    start.nameTable.Live id slot ∧ this.nameTable.object id = start.nameTable.object id

theorem AliasesTouched.addCName (touched : AliasesTouched ts start front this) (kept : this.Kept)
    (remembered : remember ts front start = some this) (isAlias : IsAlias answer) :
    AliasesTouched ts start (front ++ [answer]) (this.addCName ts answer) := by
  obtain ⟨live, last, others⟩ := addCName_object kept ts answer
  have stays := (kept.addRecord (addRecord_of_isAlias isAlias ts this)).keepsAlias
  refine ⟨fun id touches => ?_, fun id slot here quiet => ?_⟩
  · by_cases own : id = this.aliasFor answer
    · subst own
      exact ⟨live, last⟩
    · have before := ((touches_snoc remembered).mp touches).resolve_right
        fun same => own same.2.symm
      obtain ⟨⟨slot, known⟩, time⟩ := touched.processed id before
      have still := (stays id slot _ _ ⟨known, rfl⟩).1
      refine ⟨⟨slot, still⟩, ?_⟩
      rw [(others id slot still own).2]
      exact time
  · rw [touches_snoc remembered, not_or] at quiet
    obtain ⟨known, same⟩ := others id slot here fun own => quiet.2 ⟨isAlias, own.symm⟩
    rw [same]
    exact touched.other id slot known quiet.1

/-- Answers without an alias leave these records alone. -/
theorem AliasesTouched.plain (touched : AliasesTouched ts start front this)
    (remembered : remember ts front start = some this) (plain : ¬ IsAlias answer)
    (same : after.nameTable = this.nameTable) :
    AliasesTouched ts start (front ++ [answer]) after := by
  have alike : ∀ id, Touches ts start (front ++ [answer]) id ↔ Touches ts start front id :=
    fun id => (touches_snoc remembered).trans (or_iff_left fun own => plain own.1)
  refine ⟨fun id touches => ?_, fun id slot live quiet => ?_⟩
  · rw [same]
    exact touched.processed id ((alike id).mp touches)
  · rw [same] at live ⊢
    exact touched.other id slot live fun touches => quiet ((alike id).mpr touches)

theorem aliases_of_remember (kept : start.Kept)
    (remembered : remember ts answers start = some after) :
    AliasesTouched ts start answers after := by
  refine remember_front (motive := AliasesTouched ts start) ?_
    (fun front answer rest split this next earlier added touched => ?_)
    (List.append_nil answers).symm remembered
  · refine ⟨fun id touches => ?_, fun id slot live _ => ⟨live, rfl⟩⟩
    obtain ⟨front, answer, rest, -, none, -⟩ := touches
    simp at none
  · have done := kept.remember earlier
    cases recordAdded_of_addRecord added with
    | address next address added =>
        have plain : ¬ IsAlias answer := fun isAlias => isAlias.not_isAddress address
        exact touched.plain earlier plain (done.kept.addAddress added).2.2.1
    | isAlias isAlias => exact touched.addCName done.kept earlier isAlias
    | other _ plain => exact touched.plain earlier plain rfl

/-! ## One call -/

theorem tick_records (ts : ℤ) (this : ModDns) :
    ((this.tick ts).addrTable.object = this.addrTable.object ∧ ∀ id slot,
      (this.tick ts).addrTable.Live id slot → this.addrTable.Live id slot) ∧
    (this.tick ts).nameTable.object = this.nameTable.object ∧ ∀ id slot,
      (this.tick ts).nameTable.Live id slot → this.nameTable.Live id slot := by
  by_cases progress : this.Progresses ts
  · rw [tick_of_progresses progress]
    exact ⟨⟨rfl, fun id slot live => ((Pool.live_prog_iff _ id slot).mp live).1⟩,
      rfl, fun id slot live => ((Pool.live_prog_iff _ id slot).mp live).1⟩
  · rw [tick_of_not_progresses progress]
    exact ⟨⟨rfl, fun _ _ live => live⟩, rfl, fun _ _ live => live⟩

/-- What one more call adds to the seconds of an address. -/
theorem carriedSince_snoc (reached : (ModDns.new.run calls).result = some this)
    (returned : (this.recv input.memory input.p).result = some after) (id : ℕ) (addr : Bytes) :
    carriedSince id addr (calls ++ [input]) = carriedSince id addr calls ∪
      {second | id < builtAddrs after ∧ this.Matches input ∧ Carry addr input.p.answers ∧
        input.p.tvSec = second} := by
  ext second
  constructor
  · rintro ⟨front, other, before, next, prior, earlier, stepped, known, facts⟩
    rcases List.prefix_concat_iff.mp prior with whole | inside
    · obtain ⟨rfl, rfl⟩ := List.append_singleton_inj.mp whole
      cases reached.symm.trans earlier
      cases returned.symm.trans stepped
      exact .inr ⟨known, facts⟩
    · exact .inl ⟨front, other, before, next, inside, earlier, stepped, known, facts⟩
  · rintro (⟨front, other, before, next, prior, facts⟩ | ⟨known, facts⟩)
    · exact ⟨front, other, before, next, prior.trans (List.prefix_append _ _), facts⟩
    · exact ⟨calls, input, this, after, List.prefix_refl _, reached, returned, known, facts⟩

/-- No response had an address for a record that was not built. -/
theorem carriedSince_of_le (reached : (ModDns.new.run calls).result = some this)
    (late : builtAddrs this ≤ id) (addr : Bytes) : carriedSince id addr calls = ∅ := by
  apply Set.eq_empty_of_forall_notMem
  rintro second ⟨front, other, before, next, prior, earlier, stepped, known, -⟩
  have arrived := Exec.run_snoc_result.mpr ⟨before, earlier, stepped⟩
  have grown := Exec.count_le_of_prefix builtAddrs_grows prior arrived reached
  omega

/-- A record that the call passes over. -/
theorem AddrStamped.quiet {record : ARecord} (stamped : AddrStamped calls id record)
    (reached : (ModDns.new.run calls).result = some this)
    (returned : (this.recv input.memory input.p).result = some after)
    (quiet : this.Matches input → ¬ Carry record.key input.p.answers) :
    AddrStamped (calls ++ [input]) id record := by
  refine ⟨?_, ?_⟩
  · obtain ⟨call, built, time⟩ := stamped.built
    exact ⟨call, built.append [input], time⟩
  · have none : {second | id < builtAddrs after ∧ this.Matches input ∧
        Carry record.key input.p.answers ∧ input.p.tvSec = second} = (∅ : Set ℤ) :=
      Set.eq_empty_of_forall_notMem fun _ ⟨_, isMatch, came, _⟩ => quiet isMatch came
    rw [carriedSince_snoc reached returned, none, Set.union_empty]
    exact stamped.carried

/-- A record that was known and is updated. -/
theorem AddrStamped.update_iff {record : ARecord} (stamped : AddrStamped calls id record)
    (reached : (ModDns.new.run calls).result = some this)
    (returned : (this.recv input.memory input.p).result = some after)
    (known : id < builtAddrs this) (isMatch : this.Matches input)
    (came : Carry record.key input.p.answers) :
    AddrStamped (calls ++ [input]) id (record.update ts) ↔
      ts = input.p.tvSec ∨ ts ≤ record.lastTs ∧ input.p.tvSec ≤ record.lastTs := by
  have still := known.trans_le (builtAddrs_grows calls this reached input after returned)
  have seconds : carriedSince id record.key (calls ++ [input]) =
      carriedSince id record.key calls ∪ {input.p.tvSec} := by
    rw [carriedSince_snoc reached returned]
    congr 1
    ext second
    exact ⟨fun new => new.2.2.2.symm, fun same => ⟨still, isMatch, came, same.symm⟩⟩
  have greatest : IsGreatest (carriedSince id record.key (calls ++ [input]))
      (max record.lastTs input.p.tvSec) :=
    seconds ▸ stamped.carried.union isGreatest_singleton
  constructor
  · intro updated
    have same := updated.carried
    rw [ARecord.key_update] at same
    have equal := same.unique greatest
    rw [ARecord.lastTs_update] at equal
    omega
  · intro right
    refine ⟨?_, ?_⟩
    · obtain ⟨call, built, time⟩ := stamped.built
      rw [ARecord.initTs_update]
      exact ⟨call, built.append [input], time⟩
    · have equal : max record.lastTs ts = max record.lastTs input.p.tvSec := by omega
      rw [ARecord.key_update, ARecord.lastTs_update, equal]
      exact greatest

/-- A record that the call builds. -/
theorem addrStamped_new_iff {record : ARecord}
    (reached : (ModDns.new.run calls).result = some this)
    (returned : (this.recv input.memory input.p).result = some after)
    (late : builtAddrs this ≤ id) (known : id < builtAddrs after) (isMatch : this.Matches input)
    (came : Carry record.key input.p.answers) (init : record.initTs = ts)
    (last : record.lastTs = ts) :
    AddrStamped (calls ++ [input]) id record ↔ ts = input.p.tvSec := by
  have seconds : carriedSince id record.key (calls ++ [input]) = {input.p.tvSec} := by
    rw [carriedSince_snoc reached returned, carriedSince_of_le reached late, Set.empty_union]
    ext second
    exact ⟨fun new => new.2.2.2.symm, fun same => ⟨known, isMatch, came, same.symm⟩⟩
  have built : ∀ call, BuiltIn builtAddrs (calls ++ [input]) id call ↔ call = input := by
    intro call
    refine (Exec.builtIn_snoc reached).trans ⟨?_, fun same => .inr ⟨same, after, returned, late,
      known⟩⟩
    rintro (old | ⟨same, -⟩)
    · exact (Nat.not_lt.mpr late (old.lt builtAddrs_grows reached)).elim
    · exact same
  constructor
  · intro stamped
    obtain ⟨call, own, time⟩ := stamped.built
    obtain rfl := (built call).mp own
    exact init.symm.trans time
  · intro right
    refine ⟨⟨input, (built input).mpr rfl, init.trans right⟩, ?_⟩
    rw [seconds, last, right]
    exact isGreatest_singleton

/-- A call that returns leaves the records as the tick left them, or remembers the answers of a
response to a query. -/
theorem answers_cases (returned : (this.recv input.memory input.p).result = some after) :
    ¬ this.Matches input ∧ after.addrTable = (this.tick input.p.tvSec).addrTable ∧
        after.nameTable = (this.tick input.p.tvSec).nameTable ∨
      ∃ query, Answers this input query ∧ remember (this.latency input query) input.p.answers
        ((this.tick input.p.tvSec).marked query) = some after := by
  obtain ⟨events, -, handled⟩ := handled_of_recv returned
  cases handled with
  | asked ask => exact .inl ⟨fun isMatch => isMatch.1 ask, rfl, rfl⟩
  | askedAgain _ ask => exact .inl ⟨fun isMatch => isMatch.1 ask, rfl, rfl⟩
  | answered query qName logs _ response found named only remembered =>
      refine .inr ⟨query, ⟨response, found, fun none => ?_, sized_of_remember remembered⟩,
        remembered⟩
      cases named.symm.trans (qName_eq_none.mpr none)
  | missed _ absent =>
      refine .inl ⟨fun isMatch => ?_, rfl, rfl⟩
      have found := isMatch.2
      rw [absent] at found
      cases found

theorem Answers.isMatch (answers : Answers this input query) : this.Matches input :=
  ⟨answers.response, by rw [answers.found]; rfl⟩

theorem Answers.returns (answers : Answers this input query) :
    ∃ after, (this.recv input.memory input.p).result = some after := by
  rcases recv_spec input.memory input.p this with ⟨⟨-, other, found, fails⟩, -⟩ |
    ⟨events, after, same, -⟩
  · cases answers.found.symm.trans found
    exact (fails.elim answers.asks fun wrong => wrong answers.sized).elim
  · exact ⟨after, congrArg Exec.result same⟩

theorem Answers.unique (answers : Answers this input query) {other : ℕ}
    (answers' : Answers this input other) : other = query :=
  Option.some.inj (answers'.found.symm.trans answers.found)

/-- **The records of addresses** keep the times of packets in a call as far as the latency
makes no difference to them. -/
theorem addrsStamped_recv (reached : (ModDns.new.run calls).result = some this)
    (returned : (this.recv input.memory input.p).result = some after)
    (stamped : AddrsStamped calls this) : AddrsStamped (calls ++ [input]) after ↔
      ∀ query, Answers this input query → ∀ answer ∈ input.p.answers, IsAddress answer →
        AddressStamp this input query answer := by
  obtain ⟨⟨objects, lives⟩, -⟩ := tick_records input.p.tvSec this
  have before : ∀ id slot, (this.tick input.p.tvSec).addrTable.Live id slot →
      id < builtAddrs this ∧ AddrStamped calls id ((this.tick input.p.tvSec).addrTable.object id) :=
    fun id slot live => by
      rw [objects]
      have was := lives id slot live
      exact ⟨(Kept.run reached).addrs.live_lt was, stamped id slot was⟩
  rcases answers_cases returned with ⟨unmatched, same, -⟩ | ⟨query, answers, remembered⟩
  · refine iff_of_true (fun id slot live => ?_) fun query answers =>
      (unmatched answers.isMatch).elim
    rw [same] at live ⊢
    exact (before id slot live).2.quiet reached returned fun isMatch => (unmatched isMatch).elim
  have kept := ((Kept.run reached).tick input.p.tvSec).marked query
  have keyed := ((Keyed.run reached).tick input.p.tvSec).answering query
  have touched := addrs_of_remember kept keyed remembered
  have built := (tick_built input.p.tvSec this).1
  have isMatch := answers.isMatch
  have within : ∀ id slot, after.addrTable.Live id slot → id < builtAddrs after :=
    fun id slot live => (kept.remember remembered).kept.addrs.live_lt live
  constructor
  · intro shows other answers' answer member address
    obtain rfl := answers.unique answers'
    have came : Carry answer.ptr input.p.answers := ⟨answer, member, address, rfl⟩
    obtain ⟨id, slot, live, own⟩ := live_of_carry kept remembered came
    have shown := shows id slot live
    rcases touched id slot live with ⟨old, carried, other⟩ | ⟨new, came', -, init, last⟩
    · obtain ⟨known, stamp⟩ := before id slot old
      have same : ((this.tick input.p.tvSec).addrTable.object id).key = answer.ptr := by
        rw [← own]
        by_cases came' : Carry ((this.tick input.p.tvSec).addrTable.object id).key input.p.answers
        · exact (congrArg ARecord.key (carried came')).symm ▸ (ARecord.key_update _ _).symm
        · exact (congrArg ARecord.key (other came')).symm
      rw [← same] at came
      rw [carried came] at shown
      rcases (stamp.update_iff reached returned known isMatch came).mp shown with
        right | ⟨low, high⟩
      · exact .inl right
      · exact .inr ⟨id, slot, old, same, low, high⟩
    · exact .inl ((addrStamped_new_iff reached returned (built ▸ new) (within id slot live) isMatch
        came' init last).mp shown)
  · intro right id slot live
    have right := right query answers
    rcases touched id slot live with ⟨old, carried, other⟩ | ⟨new, came, unknown, init, last⟩
    · obtain ⟨known, stamp⟩ := before id slot old
      by_cases came : Carry ((this.tick input.p.tvSec).addrTable.object id).key input.p.answers
      · rw [carried came]
        refine (stamp.update_iff reached returned known isMatch came).mpr ?_
        obtain ⟨answer, member, address, own⟩ := came
        rcases right answer member address with same | ⟨one, slot', live', own', low, high⟩
        · exact .inl same
        · obtain rfl := keyed.addrs one slot' id slot live' old (own'.trans own)
          exact .inr ⟨low, high⟩
      · rw [other came]
        exact stamp.quiet reached returned fun _ => came
    · refine (addrStamped_new_iff reached returned (built ▸ new) (within id slot live) isMatch came
        init last).mpr ?_
      obtain ⟨answer, member, address, own⟩ := came
      rcases right answer member address with same | ⟨one, slot', live', own', -⟩
      · exact same
      · exact (unknown one slot' live' (own'.trans own)).elim

/-- What the loop touches is what the call processes. -/
theorem processes_iff (reached : (ModDns.new.run calls).result = some this)
    (answers : Answers this input query) : Processes id calls input ↔
      Touches (this.latency input query) ((this.tick input.p.tvSec).marked query)
        input.p.answers id := by
  constructor
  · rintro ⟨front, answer, ts, middle, reaches, isAlias, own⟩
    obtain ⟨before, other, qName, rest, earlier, -, found, -, rfl, split, remembered⟩ := reaches
    cases reached.symm.trans earlier
    cases answers.found.symm.trans found
    exact ⟨front, answer, rest, middle, split, remembered, isAlias, own⟩
  · rintro ⟨front, answer, rest, middle, split, remembered, isAlias, own⟩
    obtain ⟨qName, named⟩ := Option.ne_none_iff_exists'.mp fun none =>
      answers.asks (qName_eq_none.mp none)
    exact ⟨front, answer, _, middle, ⟨this, query, qName, rest, reached, answers.response,
      answers.found, named, rfl, split, remembered⟩, isAlias, own⟩

theorem not_processes (reached : (ModDns.new.run calls).result = some this)
    (unmatched : ¬ this.Matches input) (id : ℕ) : ¬ Processes id calls input := by
  rintro ⟨front, answer, ts, middle, reaches, -⟩
  obtain ⟨before, query, qName, rest, earlier, response, found, -⟩ := reaches
  cases reached.symm.trans earlier
  exact unmatched ⟨response, by rw [found]; rfl⟩

/-- **The records of aliases** keep the times of packets in a call whose latency is its
second. -/
theorem aliasesStamped_recv (reached : (ModDns.new.run calls).result = some this)
    (returned : (this.recv input.memory input.p).result = some after)
    (stamped : AliasesStamped calls this) : AliasesStamped (calls ++ [input]) after ↔
      ∀ query, Answers this input query → ∀ answer ∈ input.p.answers, IsAlias answer →
        this.latency input query = input.p.tvSec := by
  obtain ⟨-, objects, lives⟩ := tick_records input.p.tvSec this
  have quiet : ∀ id slot, (this.tick input.p.tvSec).nameTable.Live id slot →
      ¬ Processes id calls input → ∃ call, Exec.LastOf (Processes id) (calls ++ [input]) call ∧
        ((this.tick input.p.tvSec).nameTable.object id).lastTs = call.p.tvSec := by
    intro id slot live idle
    obtain ⟨call, last, time⟩ := stamped id slot (lives id slot live)
    rw [objects]
    exact ⟨call, Exec.lastOf_snoc.mpr (.inr ⟨idle, last⟩), time⟩
  rcases answers_cases returned with ⟨unmatched, -, same⟩ | ⟨query, answers, remembered⟩
  · refine iff_of_true (fun id slot live => ?_) fun query answers =>
      (unmatched answers.isMatch).elim
    rw [same] at live ⊢
    exact quiet id slot live (not_processes reached unmatched id)
  have kept := ((Kept.run reached).tick input.p.tvSec).marked query
  have touched := aliases_of_remember kept remembered
  constructor
  · intro shows other answers' answer member isAlias
    obtain rfl := answers.unique answers'
    obtain ⟨front, rest, split⟩ := List.append_of_mem member
    obtain ⟨middle, earlier, -⟩ : ∃ middle, remember (this.latency input other) front
        ((this.tick input.p.tvSec).marked other) = some middle ∧ _ :=
      Option.bind_eq_some_iff.mp (by rwa [split, remember_append] at remembered)
    have touches : Touches _ _ input.p.answers _ :=
      ⟨front, answer, rest, middle, split, earlier, isAlias, rfl⟩
    obtain ⟨⟨slot, live⟩, time⟩ := touched.processed _ touches
    obtain ⟨call, last, shown⟩ := shows _ slot live
    rcases Exec.lastOf_snoc.mp last with ⟨-, rfl⟩ | ⟨idle, -⟩
    · exact time.symm.trans shown
    · exact (idle ((processes_iff reached answers).mpr touches)).elim
  · intro right id slot live
    by_cases touches : Touches (this.latency input query)
        ((this.tick input.p.tvSec).marked query) input.p.answers id
    · obtain ⟨-, time⟩ := touched.processed id touches
      have processes := (processes_iff reached answers).mpr touches
      obtain ⟨front, answer, rest, middle, split, -, isAlias, -⟩ := touches
      refine ⟨input, Exec.lastOf_snoc.mpr (.inl ⟨processes, rfl⟩), time.trans ?_⟩
      refine right query answers answer ?_ isAlias
      rw [split]
      exact List.mem_append_right _ List.mem_cons_self
    · obtain ⟨before, same⟩ := touched.other id slot live touches
      rw [same]
      exact quiet id slot before fun processes =>
        touches ((processes_iff reached answers).mp processes)

/-- The times that records get from a response are right: it has no alias unless its latency is
its second, and no address for which this makes a difference. -/
structure StampsRight (this : ModDns) (input : Input) (query : ℕ) : Prop where
  addresses : ∀ answer ∈ input.p.answers, IsAddress answer → AddressStamp this input query answer
  aliases : ∀ answer ∈ input.p.answers, IsAlias answer →
    this.latency input query = input.p.tvSec

/-- **When records carry packet times.** All live records show the times of packets after every
call, if and only if every response to a query that does not abort has its second as its
latency, or has no alias and only addresses for which neither of the two is later than the
last time of the live record. -/
theorem stamps_kept_iff (inputs : List Input) : StampsKept inputs ↔
    ∀ calls input, calls ++ [input] <+: inputs → ∀ this,
      (ModDns.new.run calls).result = some this → ∀ query, Answers this input query →
        StampsRight this input query := by
  have steps : StampsKept inputs ↔ ∀ calls input, calls ++ [input] <+: inputs → ∀ this,
      (ModDns.new.run calls).result = some this → ∀ after,
        (this.recv input.memory input.p).result = some after → ∀ query,
          Answers this input query → StampsRight this input query := by
    refine Exec.invariant_iff_quiet ⟨nofun, nofun⟩ ?_
    rintro calls this reached ⟨addrs, aliases⟩ input after returned
    rw [addrsStamped_recv reached returned addrs, aliasesStamped_recv reached returned aliases]
    constructor
    · exact fun ⟨addresses, aliases⟩ query answers =>
        ⟨addresses query answers, aliases query answers⟩
    · exact fun right => ⟨fun query answers => (right query answers).addresses,
        fun query answers => (right query answers).aliases⟩
  rw [steps]
  constructor
  · intro right calls input prior this reached query answers
    obtain ⟨after, returned⟩ := answers.returns
    exact right calls input prior this reached after returned query answers
  · exact fun right calls input prior this reached _ _ => right calls input prior this reached

/-- A query at second 1 and its response at second 3. -/
def answeredLater : List Input := [⟨blank, sampleQuery 1⟩, ⟨blank, sampleReply 3⟩]

/-- **The record shows second 2, in which no packet came.** -/
theorem answeredLater_not_stamped : ¬ StampsKept answeredLater := by
  intro kept
  have computed : (ModDns.new.run answeredLater).result.map (fun this =>
      decide (this.addrTable.table.live.map Prod.fst = [0] ∧
        (this.addrTable.object 0).lastTs = 2)) = some true := by
    decide +kernel
  obtain ⟨this, reached, facts⟩ := Option.map_eq_some_iff.mp computed
  obtain ⟨ids, last⟩ := of_decide_eq_true facts
  have member : 0 ∈ this.addrTable.table.live.map Prod.fst := by
    rw [ids]
    exact List.mem_cons_self
  obtain ⟨⟨id, slot⟩, live, rfl⟩ := List.mem_map.mp member
  have stamped := ((kept _ (List.prefix_refl _) this reached).1 0 slot live).carried.1
  rw [last] at stamped
  obtain ⟨front, input, -, -, prior, -, -, -, -, -, second⟩ := stamped
  have seconds : ∀ input ∈ answeredLater, input.p.tvSec ≠ 2 := by decide +kernel
  exact seconds input (prior.subset (List.mem_append_right _ List.mem_cons_self)) second

end ModDns

end Devourer
