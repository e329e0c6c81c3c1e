import Devourer.Modules.Dns.Step

/-! # Transactions do not see each other

What `ModDns` reports for one key, the hash value of a session with a transaction
id, can be computed without the packets of the other keys, although the queries
of all keys share one table in which different keys have equal hash values. As in
the flow module a `Lane` is the module with one key only, the module reports for
a key what the lane of this key reports, and two runs that agree about a key
report the same for it.
-/

namespace Devourer

namespace Query

/-- The query without the flag for replies, which no response is reported with. -/
def bare (query : Query) : Query := { query with hasReply := false }

theorem bare_setLastTs (ts : ℚ) (query : Query) :
    (query.setLastTs ts).bare = query.bare.setLastTs ts := rfl

theorem bare_setHasReply (has : Bool) (query : Query) : (query.setHasReply has).bare = query.bare :=
  rfl

end Query

namespace ModDns

theorem bare_newQuery (memory : Memory) (p : Property) :
    (newQuery memory p).bare = newQuery blank p := by
  rw [newQuery_eq, newQuery_eq]
  rfl

theorem successMessage_bare (p : Property) (query : Query) (qName : String) :
    successMessage p query.bare qName = successMessage p query qName := rfl

/-! ## The module with one key -/

/-- What a lane gets to see of a call: its second, and the packet if it has the key. -/
structure Glimpse where
  tvSec : ℤ
  own : Option Property

/-- The module as one key sees it. -/
structure Lane where
  lastTs : ℤ
  currTick : ℕ
  held : Option (ℕ × Query)

namespace Lane

def new : Lane := ⟨0, 0, none⟩

def slotFor (ttl : ℕ) (this : Lane) : ℕ := sizeT (ttl + this.currTick) % 600

/-- The timeslot visited by the `i`th tick of progress. -/
def slotAt (this : Lane) (i : ℕ) : ℕ := sizeT (this.currTick + i) % 600

/-- Move the clock, and drop the query if its ticks run out. -/
def tick (ts : ℤ) (this : Lane) : Lane :=
  if 0 < this.lastTs ∧ this.lastTs < ts then
    let ticks := sizeOfTime (ts - this.lastTs)
    { lastTs := ts
      currTick := sizeT (this.currTick + ticks)
      held := this.held.filter fun entry => ¬ Table.Visits this.slotAt 0 ticks entry.1 }
  else { this with lastTs := ts }

def query (p : Property) (this : Lane) : Lane :=
  match this.held with
  | none => { this with held := some (this.slotFor queryTtl, newQuery blank p) }
  | some (slot, query) => { this with held := some (slot, query.setLastTs p.ts) }

def response (p : Property) (this : Lane) : Exec Message Lane :=
  match this.held with
  | none => do
      Exec.emit (missMessage p)
      pure this
  | some (_, query) => do
      let qName ← Exec.ofOption (query.qName 0)
      Exec.emit (successMessage p query qName)
      pure this

def handle : Option Property → Lane → Exec Message Lane
  | none, this => pure this
  | some p, this => if p.dnsQuery = 0 then pure (this.query p) else this.response p

def recv (glimpse : Glimpse) (this : Lane) : Exec Message Lane :=
  (this.tick glimpse.tvSec).handle glimpse.own

end Lane

/-! ## The lane of a key runs along -/

/-- The `dns.tx` message for the key. -/
def report (key : QueryKey) : DnsEvent → Option Message
  | .success _ other msg => if other = key then some msg else none
  | .miss other msg => if other = key then some msg else none
  | .timeout _ other msg => if other = key then some msg else none
  | .log _ => none

theorem report_logs {logs : List DnsEvent} (only : ∀ event ∈ logs, ∃ msg, event = .log msg)
    (key : QueryKey) : logs.filterMap (report key) = [] := by
  apply List.filterMap_eq_nil_iff.mpr
  intro event member
  obtain ⟨msg, rfl⟩ := only event member
  rfl

/-- A packet the module is made for: a query asks something, and addresses have four
or sixteen bytes. -/
structure Proper (p : Property) : Prop where
  asks : p.dnsQuery = 0 → p.questions ≠ []
  sized : Sized p.answers

instance (p : Property) : Decidable (Proper p) :=
  decidable_of_iff ((p.dnsQuery = 0 → p.questions ≠ []) ∧ Sized p.answers)
    ⟨fun both => ⟨both.1, both.2⟩, fun proper => ⟨proper.asks, proper.sized⟩⟩

/-- The lane is in step with the module, whose live queries all ask something. -/
structure Shows (key : QueryKey) (this : ModDns) (lane : Lane) : Prop where
  kept : this.Kept
  lastTs : lane.lastTs = this.lastTs
  currTick : lane.currTick = this.queryTable.table.currTick
  held : this.queryTable.Seen (fun query => query.key = key) Query.bare lane.held
  asks : ∀ id slot, this.queryTable.Live id slot → (this.queryAt id).name ≠ []

variable {key : QueryKey} {this after : ModDns} {lane : Lane} {p : Property}

theorem Shows.new (key : QueryKey) : Shows key ModDns.new Lane.new where
  kept := Kept.new
  lastTs := rfl
  currTick := rfl
  held := Pool.Seen.new 600
  asks := nofun

theorem Shows.slotFor (shows : Shows key this lane) (ttl : ℕ) :
    this.queryTable.table.slotFor ttl = lane.slotFor ttl := by
  unfold Table.slotFor Lane.slotFor
  rw [shows.kept.querySize, shows.currTick]

theorem Shows.slotAt (shows : Shows key this lane) :
    this.queryTable.table.slotAt = lane.slotAt := by
  funext i
  unfold Table.slotAt Lane.slotAt
  rw [shows.kept.querySize, shows.currTick]

/-- **The tick.** -/
theorem Shows.tick (shows : Shows key this lane) (ts : ℤ) :
    Shows key (this.tick ts) (lane.tick ts) := by
  have kept := shows.kept.tick ts
  by_cases progress : this.Progresses ts
  · have moves : 0 < lane.lastTs ∧ lane.lastTs < ts := shows.lastTs ▸ progress
    rw [tick_of_progresses progress] at kept ⊢
    rw [Lane.tick, if_pos moves, shows.lastTs]
    have seen := shows.held.prog shows.kept.queries (sizeOfTime (ts - this.lastTs))
    rw [shows.slotAt] at seen
    refine ⟨kept, rfl, ?_, seen, fun id slot live => ?_⟩
    · dsimp only
      rw [shows.currTick]
      rfl
    · exact shows.asks id slot ((Pool.live_prog_iff _ id slot).mp live).1
  · have still : ¬ (0 < lane.lastTs ∧ lane.lastTs < ts) := shows.lastTs ▸ progress
    rw [tick_of_not_progresses progress] at kept ⊢
    rw [Lane.tick, if_neg still]
    exact ⟨kept, rfl, shows.currTick, shows.held, shows.asks⟩

/-- The live queries ask something if those built do. -/
theorem Handled.asks {memory : Memory} {events : List DnsEvent}
    (handled : Handled memory p this events after) (kept : this.Kept) (proper : Proper p)
    (asks : ∀ id slot, this.queryTable.Live id slot → (this.queryAt id).name ≠ []) (id slot : ℕ)
    (live : after.queryTable.Live id slot) : (after.queryAt id).name ≠ [] := by
  have modified : ∀ (one : ℕ) (change : Query → Query),
      (∀ query : Query, (change query).name = query.name) → this.queryTable.Live id slot →
        ((this.queryTable.modify one change).object id).name ≠ [] := by
    intro one change same live
    by_cases self : id = one
    · subst self
      rw [Pool.modify_object_self, same]
      exact asks id slot live
    · rw [Pool.modify_object_of_ne self]
      exact asks id slot live
  cases handled with
  | asked query absent =>
      rcases (Pool.live_build_put_iff kept.queryFits id slot).mp live with live | ⟨rfl, -⟩
      · rw [queryAt, Pool.put_object, Pool.build_object_of_lt (kept.queries.live_lt live)]
        exact asks id slot live
      · rw [queryAt, Pool.put_object, Pool.build_object_self, newQuery_eq]
        exact mt List.map_eq_nil_iff.mp (proper.asks query)
  | askedAgain one => exact modified one _ (Query.name_setLastTs p.ts) live
  | answered one _ _ _ _ _ _ _ remembered =>
      have same := kept.answered_queryTable remembered
      rw [same] at live
      rw [queryAt, same]
      exact modified one _ (Query.name_setHasReply true) live
  | missed => exact asks id slot live

/-- The lane stays in step when it is shown what there is to see afterwards. -/
theorem Shows.next {memory : Memory} {events : List DnsEvent} (shows : Shows key this lane)
    (proper : Proper p) (handled : Handled memory p this events after) {held : Option (ℕ × Query)}
    (seen : after.queryTable.Seen (fun query => query.key = key) Query.bare held) :
    Shows key after { lane with held := held } where
  kept := handled.kept shows.kept
  lastTs := shows.lastTs.trans (handled.clock shows.kept).1.symm
  currTick := shows.currTick.trans (handled.clock shows.kept).2.symm
  held := seen
  asks := handled.asks shows.kept proper shows.asks

/-- What the lane of a key sees of a call. -/
def glimpse (key : QueryKey) (input : Input) : Glimpse where
  tvSec := input.p.tvSec
  own := if keyOf input.p = key then some input.p else none

theorem Lane.handle_query (query : p.dnsQuery = 0) :
    lane.handle (some p) = ⟨[], some (lane.query p)⟩ := if_pos query

theorem Lane.handle_response (response : p.dnsQuery ≠ 0) :
    lane.handle (some p) = lane.response p := if_neg response

theorem Lane.query_of_none (held : lane.held = none) :
    lane.query p = { lane with held := some (lane.slotFor queryTtl, newQuery blank p) } := by
  unfold Lane.query
  rw [held]

theorem Lane.query_of_some {slot : ℕ} {query : Query} (held : lane.held = some (slot, query)) :
    lane.query p = { lane with held := some (slot, query.setLastTs p.ts) } := by
  unfold Lane.query
  rw [held]

theorem Lane.response_of_none (held : lane.held = none) :
    lane.response p = ⟨[missMessage p], some lane⟩ := by
  unfold Lane.response
  rw [held]
  rfl

theorem Lane.response_of_some {slot : ℕ} {query : Query} {qName : String}
    (held : lane.held = some (slot, query)) (named : query.qName 0 = some qName) :
    lane.response p = ⟨[successMessage p query qName], some lane⟩ := by
  simp only [Lane.response, held, named]
  rfl

/-- A packet with the key. -/
theorem Shows.handled_own (shows : Shows key this lane) {memory : Memory}
    {events : List DnsEvent} (proper : Proper p) (handled : Handled memory p this events after)
    (own : keyOf p = key) :
    ∃ next, lane.handle (some p) = ⟨events.filterMap (report key), some next⟩ ∧
      Shows key after next := by
  have wf := shows.kept.queries
  have unheld : this.findQuery p = none → lane.held = none := fun absent =>
    shows.held.eq_none fun id slot live same =>
      findQuery_eq_none absent live (same.trans own.symm)
  cases id handled with
  | asked query absent =>
      have mine : (newQuery memory p).key = key := by
        rw [newQuery_eq]
        exact own
      have seen := shows.held
      rw [unheld absent] at seen
      have seen := seen.add_own wf mine shows.kept.queryFits
      rw [bare_newQuery, shows.slotFor] at seen
      rw [Lane.handle_query query, Lane.query_of_none (unheld absent)]
      exact ⟨_, rfl, shows.next proper handled seen⟩
  | askedAgain one query found =>
      obtain ⟨⟨slot, live⟩, same⟩ := findQuery_eq_some found
      have mine : (this.queryAt one).key = key := same.trans own
      have seen := shows.held.modify_own live mine ((Query.key_setLastTs p.ts _).trans mine)
      rw [Query.bare_setLastTs] at seen
      rw [Lane.handle_query query, Lane.query_of_some (shows.held.eq_some wf live mine)]
      exact ⟨_, rfl, shows.next proper handled seen⟩
  | answered one qName logs after response found named only remembered =>
      obtain ⟨⟨slot, live⟩, same⟩ := findQuery_eq_some found
      have mine : (this.queryAt one).key = key := same.trans own
      have held := shows.held.eq_some wf live mine
      have seen := shows.held.modify_own live mine ((Query.key_setHasReply true _).trans mine)
      rw [Query.bare_setHasReply, ← held, ← shows.kept.answered_queryTable remembered] at seen
      rw [Lane.handle_response response, Lane.response_of_some held named]
      refine ⟨lane, ?_, shows.next proper handled seen⟩
      rw [List.filterMap_cons, report_logs only, own, successMessage_bare]
      simp only [report, ↓reduceIte]
  | missed response absent =>
      rw [Lane.handle_response response, Lane.response_of_none (unheld absent)]
      refine ⟨lane, ?_, shows⟩
      simp only [List.filterMap_cons, report, own, ↓reduceIte, List.filterMap_nil]

/-- A packet with another key. -/
theorem Shows.handled_other (shows : Shows key this lane) {memory : Memory}
    {events : List DnsEvent} (proper : Proper p) (handled : Handled memory p this events after)
    (other : keyOf p ≠ key) : events.filterMap (report key) = [] ∧ Shows key after lane := by
  have wf := shows.kept.queries
  have foreign : ∀ {one}, this.findQuery p = some one → (this.queryAt one).key ≠ key :=
    fun found mine => other ((findQuery_eq_some found).2.symm.trans mine)
  cases id handled with
  | asked query absent =>
      have different : (newQuery memory p).key ≠ key := by
        rw [newQuery_eq]
        exact other
      have seen := shows.held.add_other wf different shows.kept.queryFits
      exact ⟨rfl, shows.next proper handled seen⟩
  | askedAgain one query found =>
      have still := (Query.key_setLastTs p.ts _).symm ▸ foreign found
      exact ⟨rfl, shows.next proper handled (shows.held.modify_other (foreign found) still)⟩
  | answered one qName logs after response found named only remembered =>
      have still := (Query.key_setHasReply true _).symm ▸ foreign found
      have seen := shows.held.modify_other (foreign found) still
      rw [← shows.kept.answered_queryTable remembered] at seen
      refine ⟨?_, shows.next proper handled seen⟩
      rw [List.filterMap_cons, report_logs only]
      simp only [report, other, ↓reduceIte]
  | missed response absent =>
      refine ⟨?_, shows⟩
      simp only [List.filterMap_cons, report, other, ↓reduceIte, List.filterMap_nil]

/-- **One call.** The lane of a key reports what the module reports for the key. -/
theorem Shows.recv (shows : Shows key this lane) {input : Input} (proper : Proper input.p) :
    (this.recv input.memory input.p).events.filterMap (report key) =
        (lane.recv (glimpse key input)).events ∧
      Option.Rel (Shows key) (this.recv input.memory input.p).result
        (lane.recv (glimpse key input)).result := by
  have shows := shows.tick input.p.tvSec
  rcases recv_spec input.memory input.p this with ⟨⟨-, id, found, fails⟩, -⟩ |
    ⟨events, after, same, handled⟩
  · obtain ⟨⟨slot, live⟩, -⟩ := findQuery_eq_some found
    exact (fails.elim (shows.asks id slot live) fun wrong => wrong proper.sized).elim
  rw [same]
  change _ = ((lane.tick input.p.tvSec).handle _).events ∧ Option.Rel _ _
    ((lane.tick input.p.tvSec).handle _).result
  unfold glimpse
  by_cases own : keyOf input.p = key
  · obtain ⟨next, handles, shows⟩ := shows.handled_own proper handled own
    rw [if_pos own, handles]
    exact ⟨rfl, .some shows⟩
  · obtain ⟨silent, shows⟩ := shows.handled_other proper handled own
    rw [if_neg own]
    exact ⟨silent, .some shows⟩

/-! ## Runs -/

/-- What a run reports in each call reached. -/
def outputs : ModDns → List Input → List (List DnsEvent) :=
  Exec.outputs fun this input => this.recv input.memory input.p

/-- **The module is its lanes.** What a run reports for a key in each call is what
the lane of the key reports. -/
theorem reports_eq_lane (key : QueryKey) (inputs : List Input)
    (proper : ∀ input ∈ inputs, Proper input.p) :
    (ModDns.new.outputs inputs).map (List.filterMap (report key)) =
      Exec.outputs (fun lane glimpse => lane.recv glimpse) Lane.new
        (inputs.map (glimpse key)) := by
  have paired : List.Forall₂ (fun input seen => Proper input.p ∧ seen = glimpse key input) inputs
      (inputs.map (glimpse key)) := by
    rw [List.forall₂_map_right_iff, List.forall₂_same]
    exact fun input member => ⟨proper input member, rfl⟩
  rw [← List.map_id (Exec.outputs _ _ _)]
  apply Exec.outputs_map_eq (List.filterMap (report key)) id (Shows key) _ _ paired (Shows.new key)
  rintro this lane input _ shows ⟨proper, rfl⟩
  exact shows.recv proper

/-- Two calls agree about a key: they are made in the same second, and either with
the same packet or with packets of other keys. -/
def Agree (key : QueryKey) (left right : Input) : Prop :=
  left.p.tvSec = right.p.tvSec ∧ (left.p = right.p ∨ keyOf left.p ≠ key ∧ keyOf right.p ≠ key)

instance (key : QueryKey) (left right : Input) : Decidable (Agree key left right) :=
  inferInstanceAs (Decidable (_ ∧ _))

theorem Agree.glimpse_eq {left right : Input} (agree : Agree key left right) :
    glimpse key left = glimpse key right := by
  unfold glimpse
  obtain ⟨sameSecond, same | ⟨left, right⟩⟩ := agree
  · rw [same]
  · rw [sameSecond, if_neg left, if_neg right]

/-- **Isolation of transactions.** Two runs that agree about a key report for it, in
each call, the same messages. -/
theorem transactions_isolated (key : QueryKey) (lefts rights : List Input)
    (agree : List.Forall₂ (Agree key) lefts rights)
    (properLeft : ∀ input ∈ lefts, Proper input.p)
    (properRight : ∀ input ∈ rights, Proper input.p) :
    (ModDns.new.outputs lefts).map (List.filterMap (report key)) =
      (ModDns.new.outputs rights).map (List.filterMap (report key)) := by
  have glimpses : lefts.map (glimpse key) = rights.map (glimpse key) := by
    clear properLeft properRight
    induction agree with
    | nil => rfl
    | cons here _ ih => exact congrArg₂ List.cons here.glimpse_eq ih
  rw [reports_eq_lane key lefts properLeft, reports_eq_lane key rights properRight, glimpses]

/-- A query and its response, and between them a query with another key. -/
def beside : List Input :=
  [⟨blank, sampleQuery 1⟩, ⟨blank, { sampleQuery 2 with hashValue := 2 }⟩,
    ⟨blank, { sampleQuery 3 with dnsQuery := 1 }⟩]

/-- The same, with another key that has the hash value of the first. -/
def colliding : List Input :=
  [⟨blank, sampleQuery 1⟩, ⟨blank, { sampleQuery 2 with hashValue := 0, dnsTxId := 1 }⟩,
    ⟨blank, { sampleQuery 3 with dnsQuery := 1 }⟩]

/-- The response is reported in the last call, in both runs. -/
theorem transactions_isolated_sample :
    (ModDns.new.outputs beside).map (List.filterMap (report ⟨1, 0⟩)) =
      (ModDns.new.outputs colliding).map (List.filterMap (report ⟨1, 0⟩)) ∧
    ((ModDns.new.outputs beside).map (List.filterMap (report ⟨1, 0⟩))).map List.length =
      [0, 0, 1] := by
  refine ⟨transactions_isolated ⟨1, 0⟩ _ _ ?_ (by decide) (by decide), by decide +kernel⟩
  exact .cons (by decide) (.cons (by decide) (.cons (by decide) .nil))

end ModDns

end Devourer
