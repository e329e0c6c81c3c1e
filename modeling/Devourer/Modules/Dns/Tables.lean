import Devourer.LRUHash.Client
import Devourer.Modules.Dns.Step

/-! # The three tables over pointers

`ModDns` puts a query or a record when it has just built it, and what it changes
later are times and the mark of a reply, which no lookup reads. Its tables are
therefore realized by tables over pointers after every run.
-/

namespace Devourer

namespace ModDns

/-- Each table stands for a table over pointers. -/
structure Realized (buckets : ℕ) (this : ModDns) : Prop where
  queries : this.queryTable.Realized Query.virt 600 buckets
  addrs : this.addrTable.Realized ARecord.virt 1200 buckets
  names : this.nameTable.Realized CNameRecord.virt 1200 buckets

variable {buckets : ℕ} {this after : ModDns} {memory : Memory} {p : Property}

/-- Empty tables are there before the first packet. -/
theorem Realized.new : ModDns.new.Realized buckets where
  queries := Pool.Realized.new Query.virt buckets (by decide)
  addrs := Pool.Realized.new ARecord.virt buckets (by decide)
  names := Pool.Realized.new CNameRecord.virt buckets (by decide)

/-- The ticks are calls of `prog`. -/
theorem Realized.tick (realized : this.Realized buckets) (ts : ℤ) :
    (this.tick ts).Realized buckets := by
  unfold ModDns.tick
  split
  · exact ⟨realized.queries.prog _, realized.addrs.prog _, realized.names.prog _⟩
  · exact ⟨realized.queries, realized.addrs, realized.names⟩

/-- An address is looked up, and a new record put. -/
theorem Realized.addAddress (realized : this.Realized buckets) (kept : this.Kept) {ts : ℤ}
    {answer : AnswerRecord} (added : this.addAddress ts answer = some after) :
    after.Realized buckets := by
  cases addressAdded_of_addAddress added with
  | known hv id hashes found =>
      have matches' : ∀ record : ARecord,
          ARecord.virt.matches? (record.update ts) = ARecord.virt.matches? record := by
        intro record
        funext key
        have same := congrArg Prod.snd (ARecord.read_update ts record)
        change decide ((record.update ts).read.2 = key) = _
        rw [same]
        rfl
      exact ⟨realized.queries, realized.addrs.modify id (ARecord.hv_update ts) matches',
        realized.names⟩
  | fresh hv hashes found =>
      exact ⟨realized.queries, realized.addrs.add kept.addrs _ _, realized.names⟩

/-- An alias is looked up, and a new record put. -/
theorem Realized.addCName (realized : this.Realized buckets) (kept : this.Kept) (ts : ℤ)
    (answer : AnswerRecord) : (this.addCName ts answer).Realized buckets := by
  unfold ModDns.addCName
  split
  · exact ⟨realized.queries, realized.addrs, realized.names.modify _ (fun _ => rfl) fun _ => rfl⟩
  · exact ⟨realized.queries, realized.addrs, realized.names.add kept.names _ _⟩

/-- The loop over the answers. -/
theorem Realized.remember (realized : this.Realized buckets) (kept : this.Kept) {ts : ℤ}
    {answers : List AnswerRecord} (added : ModDns.remember ts answers this = some after) :
    after.Realized buckets := by
  refine remember_induction (fun answer _ _ this after kept added realized => ?_)
    (fun answer _ _ this kept realized => ?_) kept added realized
  · exact realized.addAddress kept added
  · exact realized.addCName kept ts answer

/-- Handling a packet puts at most one query and the records of its answers. -/
theorem Handled.realized {events : List DnsEvent} (handled : Handled memory p this events after)
    (kept : this.Kept) (realized : this.Realized buckets) : after.Realized buckets := by
  cases handled with
  | asked =>
      exact ⟨realized.queries.add kept.queries _ _, realized.addrs, realized.names⟩
  | askedAgain id =>
      exact ⟨realized.queries.modify id (fun _ => rfl) fun _ => rfl, realized.addrs,
        realized.names⟩
  | answered id _ _ _ _ _ _ _ remembered =>
      have marked : ({ this with
          queryTable := this.queryTable.modify id (Query.setHasReply true) } : ModDns).Realized
            buckets :=
        ⟨realized.queries.modify id (fun _ => rfl) fun _ => rfl, realized.addrs, realized.names⟩
      exact marked.remember (kept.answering id) remembered
  | missed => exact realized

/-- One call of the module. -/
theorem Realized.recv (realized : this.Realized buckets) (kept : this.Kept)
    (returned : (this.recv memory p).result = some after) : after.Realized buckets := by
  obtain ⟨events, -, handled⟩ := handled_of_recv returned
  exact handled.realized (kept.tick p.tvSec) (realized.tick p.tvSec)

/-- **The tables are tables over pointers.** After every run that returns, legal
histories of `LRUHash` lead to tables over pointers that represent the queries and
the two caches. -/
theorem Realized.run (buckets : ℕ) {inputs : List Input}
    (reached : (ModDns.new.run inputs).result = some this) : this.Realized buckets := by
  refine (Exec.run_invariant (fun _ _ this => this.Kept ∧ this.Realized buckets)
    ⟨Kept.new, Realized.new⟩ ?_ inputs this reached).2
  intro _ _ _ _ ⟨kept, realized⟩ returned
  exact ⟨kept.recv returned, realized.recv kept returned⟩

end ModDns

end Devourer
