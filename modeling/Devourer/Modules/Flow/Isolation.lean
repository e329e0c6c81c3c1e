import Devourer.LRUHash.Seen
import Devourer.Modules.Flow.Step

/-! # Flows do not see each other

What `ModFlow` reports for one key can be computed without the packets of the
other keys. A `Lane` is the module with one flow only: a clock, and the live flow
of its key with its timeslot. On every run of packets with directions the module
reports for a key, names aside, what the lane of this key reports, although all
flows share one table. Two runs that agree about a key therefore report the same
for it.
-/

namespace Devourer

/-- The fields of messages that hold resolved names. -/
def nameFields : List String := ["src_name", "dst_name", "c_name", "s_name"]

namespace Flow

/-- The flow without the names of its two ends. -/
def bare (flow : Flow) : Flow := { flow with lName := "", rName := "" }

@[simp] theorem remain_bare (flow : Flow) : flow.bare.remain = flow.remain := rfl

theorem bare_refresh (tvSec : ℤ) (flow : Flow) :
    (flow.refresh tvSec).bare = flow.bare.refresh tvSec := rfl

theorem bare_update (p : Property) (flow : Flow) : (flow.update p).bare = flow.bare.update p := by
  unfold update
  cases p.dir <;> rfl

theorem bare_new (p : Property) (src dst : String) :
    (Flow.new p src dst).bare = Flow.new p "" "" := by
  unfold bare Flow.new
  cases p.dir <;> rfl

/-- A flow without names is logged as the flow is, names aside. -/
theorem buildMessage_bare (flow : Flow) :
    flow.bare.buildMessage = flow.buildMessage.map (Message.without nameFields) := by
  unfold buildMessage
  cases dir : flow.initDir <;>
    simp [dir, bare, setEnds, client, server, nameFields, Message.without_setName,
      Message.without_set_of_not_mem]

end Flow

namespace ModFlow

/-! ## The module with one key -/

/-- What a lane gets to see of a call: its second, and the packet if it is an IP
packet with the key. -/
structure Glimpse where
  tvSec : ℤ
  own : Option Property

/-- The module as one key sees it. -/
structure Lane where
  lastTs : ℤ
  currTick : ℕ
  held : Option (ℕ × Flow)

namespace Lane

def new : Lane := ⟨0, 0, none⟩

def slotFor (ttl : ℕ) (this : Lane) : ℕ := sizeT (ttl + this.currTick) % 3600

/-- The timeslot visited by the `i`th tick of progress. -/
def slotAt (this : Lane) (i : ℕ) : ℕ := sizeT (this.currTick + i) % 3600

/-- The flow whose ticks run out by the given second. -/
def due (tvSec : ℤ) (this : Lane) : Option Flow :=
  if this.lastTs ≠ 0 ∧ this.lastTs < tvSec then
    (this.held.filter fun entry =>
      Table.Visits this.slotAt 0 (sizeOfTime (tvSec - this.lastTs)) entry.1).map Prod.snd
  else none

/-- Move the clock. -/
def moved (tvSec : ℤ) (this : Lane) : Lane where
  lastTs := if this.lastTs = 0 ∨ this.lastTs < tvSec then tvSec else this.lastTs
  currTick :=
    if this.lastTs ≠ 0 ∧ this.lastTs < tvSec then
      sizeT (this.currTick + sizeOfTime (tvSec - this.lastTs))
    else this.currTick
  held := this.held

/-- Put the flow again, or log it. -/
def expire (tvSec : ℤ) (flow : Flow) (this : Lane) : Exec Message Lane :=
  if 0 < flow.remain then
    let ttl := sizeOfTime flow.remain
    pure { this with
      held := if ttl < 3600 then some (this.slotFor ttl, flow.refresh tvSec) else none }
  else do
    let msg ← Exec.ofOption flow.buildMessage
    Exec.emit msg
    pure { this with held := none }

def tick (tvSec : ℤ) (this : Lane) : Exec Message Lane :=
  match this.due tvSec with
  | none => pure (this.moved tvSec)
  | some flow => (this.moved tvSec).expire tvSec flow

/-- Count a packet, in a new flow if there is none. -/
def packet (p : Property) (this : Lane) : Exec Message Lane :=
  match this.held with
  | some (slot, flow) => pure { this with held := some (slot, flow.update p) }
  | none => do
      let flow := Flow.new p "" ""
      Exec.emit (newMessage p flow "" "")
      pure { this with held := some (this.slotFor 600, flow.update p) }

def handle : Option Property → Lane → Exec Message Lane
  | none, this => pure this
  | some p, this => this.packet p

def recv (glimpse : Glimpse) (this : Lane) : Exec Message Lane :=
  this.tick glimpse.tvSec >>= handle glimpse.own

end Lane

/-! ## What is reported for a key -/

/-- The message for the key, names aside. -/
def report (key : FlowKey) : FlowEvent → Option Message
  | .emitNew _ other msg => if other = key then some (msg.without nameFields) else none
  | .emitLog _ other msg => if other = key then some (msg.without nameFields) else none
  | .put .. => none
  | .counted .. => none

theorem newMessage_without (p : Property) (src dst : String) :
    (newMessage p (Flow.new p src dst) src dst).without nameFields =
      newMessage p (Flow.new p "" "") "" "" := by
  unfold newMessage
  cases p.hasPort <;>
    simp [Flow.new, nameFields, Message.without_setName, Message.without_set_of_not_mem]

/-- A turn reports for a key only what the flow of this key says. -/
theorem report_turnEvents (key : FlowKey) (id : ℕ) (flow : Flow) :
    (turnEvents 3600 id flow).filterMap (report key) =
      if flow.flowKey = key ∧ ¬ 0 < flow.remain then flow.bare.buildMessage.toList else [] := by
  rw [Flow.buildMessage_bare]
  unfold turnEvents
  by_cases remains : 0 < flow.remain
  · simp [remains, report]
  · cases flow.buildMessage with
    | none => simp [remains]
    | some msg => by_cases own : flow.flowKey = key <;> simp [remains, own, report]

/-! ## The lane of a key runs along -/

/-- The lane is in step with the module, whose other live flows have a direction. -/
structure Shows (evIpv4 evIpv6 : EvId) (key : FlowKey) (this : ModFlow) (lane : Lane) : Prop where
  kept : this.Kept
  ipv4 : this.evIpv4 = evIpv4
  ipv6 : this.evIpv6 = evIpv6
  lastTs : lane.lastTs = this.lastTs
  currTick : lane.currTick = this.flowTable.table.currTick
  held : this.flowTable.Seen (fun flow => flow.flowKey = key) Flow.bare lane.held
  directed : ∀ id slot, this.flowTable.Live id slot → (this.flow id).flowKey ≠ key →
    (this.flow id).initDir ≠ .nil

variable {evIpv4 evIpv6 : EvId} {key : FlowKey} {this middle after : ModFlow} {lane : Lane}
  {p : Property}

theorem Shows.new (evIpv4 evIpv6 : EvId) (key : FlowKey) :
    Shows evIpv4 evIpv6 key (ModFlow.new evIpv4 evIpv6) Lane.new where
  kept := Kept.new evIpv4 evIpv6
  ipv4 := rfl
  ipv6 := rfl
  lastTs := rfl
  currTick := rfl
  held := Pool.Seen.new 3600
  directed := nofun

theorem Shows.slotFor (shows : Shows evIpv4 evIpv6 key this lane) (ttl : ℕ) :
    this.flowTable.table.slotFor ttl = lane.slotFor ttl := by
  unfold Table.slotFor Lane.slotFor
  rw [shows.kept.size, shows.currTick]

theorem Shows.slotAt (shows : Shows evIpv4 evIpv6 key this lane) :
    this.flowTable.table.slotAt = lane.slotAt := by
  funext i
  unfold Table.slotAt Lane.slotAt
  rw [shows.kept.size, shows.currTick]

/-- A live flow is expired when progress visits its timeslot. -/
theorem mem_expired_of_live (kept : this.Kept) {id slot : ℕ} (live : this.flowTable.Live id slot) :
    id ∈ this.expired p ↔ (this.lastTs ≠ 0 ∧ this.lastTs < p.tvSec) ∧
      Table.Visits this.flowTable.table.slotAt 0 (sizeOfTime (p.tvSec - this.lastTs)) slot := by
  unfold expired
  by_cases progress : this.lastTs ≠ 0 ∧ this.lastTs < p.tvSec
  · rw [if_pos progress, Pool.mem_exp_prog_iff, kept.swept]
    constructor
    · rintro (absurd | ⟨slot', live', visited⟩)
      · cases absurd
      · rw [kept.wf.table.slot_unique live live']
        exact ⟨progress, visited⟩
    · rintro ⟨-, visited⟩
      exact .inr ⟨slot, live, visited⟩
  · rw [if_neg progress]
    constructor
    · nofun
    · exact fun both => (progress both.1).elim

/-- What the lane has due is the expired flow of the key. -/
theorem Shows.due (shows : Shows evIpv4 evIpv6 key this lane) :
    lane.due p.tvSec = none ∧ (∀ id ∈ this.expired p, (this.flow id).flowKey ≠ key) ∨
      ∃ id ∈ this.expired p, (this.flow id).flowKey = key ∧
        lane.due p.tvSec = some (this.flow id).bare := by
  have held := shows.held
  unfold Lane.due
  rw [shows.lastTs, ← shows.slotAt]
  revert held
  generalize lane.held = held
  intro seen
  cases seen with
  | absent none =>
      left
      refine ⟨by split <;> rfl, fun id expired => ?_⟩
      obtain ⟨slot, live⟩ := expired_live shows.kept expired
      exact none id slot live
  | present id slot live own only =>
      by_cases expired : id ∈ this.expired p
      · obtain ⟨progress, visited⟩ := (mem_expired_of_live shows.kept live).mp expired
        right
        refine ⟨id, expired, own, ?_⟩
        rw [if_pos progress]
        simp only [Option.filter_some, visited, decide_true, ↓reduceIte, Option.map_some]
      · left
        constructor
        · have unvisited := mt (mem_expired_of_live shows.kept live).mpr expired
          by_cases progress : this.lastTs ≠ 0 ∧ this.lastTs < p.tvSec
          · rw [if_pos progress]
            have unvisited := not_and.mp unvisited progress
            simp only [Option.filter_some, unvisited, decide_false, Bool.false_eq_true, ↓reduceIte,
              Option.map_none]
          · rw [if_neg progress]
        · intro other expired' own'
          obtain ⟨slot', live'⟩ := expired_live shows.kept expired'
          exact expired (only other slot' live' own' ▸ expired')

/-- Nothing is reported when no flow of the key is expired. -/
theorem report_of_waiting (kept : this.Kept)
    (waiting : ∀ id ∈ this.expired p, (this.flow id).flowKey ≠ key) :
    (this.tickEvents p).filterMap (report key) = [] := by
  have off : this.flowTable.built ∉ this.expired p := by
    intro expired
    obtain ⟨slot, live⟩ := expired_live kept expired
    exact Nat.lt_irrefl _ (kept.wf.live_lt live)
  have silent : ∀ id ∈ this.expired p, id ≠ this.flowTable.built →
      (turnEvents 3600 id (this.flow id)).filterMap (report key) = [] := by
    intro id expired _
    rw [report_turnEvents, if_neg fun both => waiting id expired both.1]
  rw [filterMap_tickEvents kept silent, if_neg off]

/-- The expired flow of the key is the only one reported. -/
theorem report_of_due (kept : this.Kept) {id : ℕ} (expired : id ∈ this.expired p)
    (own : (this.flow id).flowKey = key) :
    (this.tickEvents p).filterMap (report key) =
      if 0 < (this.flow id).remain then [] else (this.flow id).bare.buildMessage.toList := by
  have silent : ∀ other ∈ this.expired p, other ≠ id →
      (turnEvents 3600 other (this.flow other)).filterMap (report key) = [] := by
    intro other expired' different
    rw [report_turnEvents, if_neg]
    rintro ⟨own', -⟩
    obtain ⟨slot, live⟩ := expired_live kept expired
    obtain ⟨slot', live'⟩ := expired_live kept expired'
    exact different (kept.keyed other id slot' slot live' live (own'.trans own.symm))
  rw [filterMap_tickEvents kept silent, if_pos expired, report_turnEvents]
  simp only [own, true_and, ite_not]

/-- A tick leaves what there is to see of a flow that does not expire. -/
theorem Ticked.seen_of_waiting (ticked : Ticked p this middle) (kept : this.Kept)
    {held : Option (ℕ × Flow)}
    (seen : this.flowTable.Seen (fun flow => flow.flowKey = key) Flow.bare held)
    (waiting : ∀ id ∈ this.expired p, (this.flow id).flowKey ≠ key) :
    middle.flowTable.Seen (fun flow => flow.flowKey = key) Flow.bare held := by
  cases seen with
  | absent none =>
      apply Pool.Seen.absent
      intro id slot live own
      obtain ⟨slot', live'⟩ := ticked.of_live kept live
      exact none id slot' live' ((ticked.flowKey id).symm.trans own)
  | present id slot live own only =>
      have calm : id ∉ this.expired p := fun expired => waiting id expired own
      have same : middle.flowTable.object id = this.flowTable.object id :=
        (ticked.flow id).trans (if_neg fun both => calm both.1)
      rw [← same]
      apply Pool.Seen.present id slot
      · exact (ticked.live id slot).mpr (.inl ⟨live, calm⟩)
      · rwa [ticked.flowKey]
      · intro other slot' live' own'
        obtain ⟨slot'', before⟩ := ticked.of_live kept live'
        exact only other slot'' before ((ticked.flowKey other).symm.trans own')

/-- A tick puts the expired flow of the key again, if it has time remaining and
the table takes it, and drops it otherwise. -/
theorem Ticked.seen_of_due (ticked : Ticked p this middle) (kept : this.Kept) {id : ℕ}
    (expired : id ∈ this.expired p) (own : (this.flow id).flowKey = key) :
    middle.flowTable.Seen (fun flow => flow.flowKey = key) Flow.bare
      (if 0 < (this.flow id).remain ∧ sizeOfTime (this.flow id).remain < 3600 then
        some (middle.flowTable.table.slotFor (sizeOfTime (this.flow id).remain),
          (this.flow id).bare.refresh p.tvSec)
      else none) := by
  have only : ∀ other slot, middle.flowTable.Live other slot →
      (middle.flow other).flowKey = key → other = id := by
    intro other slot live own'
    obtain ⟨slot', before'⟩ := ticked.of_live kept live
    obtain ⟨slot'', before⟩ := expired_live kept expired
    rw [ticked.flowKey] at own'
    exact kept.keyed other id slot' slot'' before' before (own'.trans own.symm)
  by_cases again : 0 < (this.flow id).remain ∧ sizeOfTime (this.flow id).remain < 3600
  · have refreshed : middle.flow id = (this.flow id).refresh p.tvSec := by
      rw [ticked.flow, if_pos ⟨expired, again.1⟩]
    rw [if_pos again, ← Flow.bare_refresh, ← refreshed]
    apply Pool.Seen.present id _ _ _ only
    · exact (ticked.live id _).mpr (.inr ⟨expired, again.1, again.2, rfl⟩)
    · rwa [ticked.flowKey]
  · rw [if_neg again]
    apply Pool.Seen.absent
    intro other slot live own'
    obtain rfl := only other slot live own'
    rcases (ticked.live other slot).mp live with ⟨-, calm⟩ | ⟨-, remains, short, -⟩
    · exact calm expired
    · exact again ⟨remains, short⟩

theorem Shows.moved (shows : Shows evIpv4 evIpv6 key this lane) (ticked : Ticked p this middle)
    {held : Option (ℕ × Flow)}
    (seen : middle.flowTable.Seen (fun flow => flow.flowKey = key) Flow.bare held) :
    Shows evIpv4 evIpv6 key middle { lane.moved p.tvSec with held := held } where
  kept := ticked.kept shows.kept
  ipv4 := ticked.evIpv4.trans shows.ipv4
  ipv6 := ticked.evIpv6.trans shows.ipv6
  lastTs := by
    rw [ticked.lastTs, ← shows.lastTs]
    rfl
  currTick := by
    rw [ticked.currTick, ← shows.lastTs, ← shows.currTick]
    rfl
  held := seen
  directed id slot live other := by
    obtain ⟨slot', live'⟩ := ticked.of_live shows.kept live
    rw [ticked.flowKey] at other
    rw [ticked.initDir]
    exact shows.directed id slot' live' other

/-- **The tick.** The lane reports what the module reports for the key. -/
theorem Shows.tick (shows : Shows evIpv4 evIpv6 key this lane) (ticked : Ticked p this middle)
    (free : ∀ id ∈ this.expired p, ¬ Stuck (this.flow id)) :
    ∃ next, lane.tick p.tvSec = ⟨(this.tickEvents p).filterMap (report key), some next⟩ ∧
      Shows evIpv4 evIpv6 key middle next := by
  unfold Lane.tick
  rcases shows.due (p := p) with ⟨due, waiting⟩ | ⟨id, expired, own, due⟩
  · rw [due, report_of_waiting shows.kept waiting]
    exact ⟨_, rfl, shows.moved ticked (ticked.seen_of_waiting shows.kept shows.held waiting)⟩
  · rw [due, report_of_due shows.kept expired own]
    have seen := ticked.seen_of_due shows.kept expired own
    unfold Lane.expire
    by_cases remains : 0 < (this.flow id).remain
    · simp only [remains, true_and] at seen
      simp only [Flow.remain_bare, remains, ↓reduceIte]
      have next := shows.moved ticked seen
      rw [next.slotFor] at next
      exact ⟨_, rfl, next⟩
    · simp only [remains, false_and, ↓reduceIte] at seen
      simp only [Flow.remain_bare, remains, ↓reduceIte]
      cases built : (this.flow id).bare.buildMessage with
      | none =>
          rw [Flow.buildMessage_bare, Option.map_eq_none_iff] at built
          exact (free id expired ⟨remains, built⟩).elim
      | some msg => exact ⟨_, rfl, shows.moved ticked seen⟩

/-- Where the module aborts, it is at the flow of the key, and the lane aborts. -/
theorem Shows.tick_aborted (shows : Shows evIpv4 evIpv6 key this lane)
    (stuck : ∃ id ∈ this.expired p, Stuck (this.flow id)) :
    lane.tick p.tvSec = ⟨[], none⟩ ∧ (this.tickEvents p).filterMap (report key) = [] := by
  obtain ⟨id, expired, spent, silent⟩ := stuck
  have own : (this.flow id).flowKey = key := by
    by_contra other
    obtain ⟨slot, live⟩ := expired_live shows.kept expired
    exact shows.directed id slot live other (Flow.buildMessage_eq_none.mp silent)
  have silentBare : (this.flow id).bare.buildMessage = none := by
    rw [Flow.buildMessage_bare, silent, Option.map_none]
  rcases shows.due (p := p) with ⟨-, waiting⟩ | ⟨other, expired', own', due⟩
  · exact (waiting id expired own).elim
  obtain ⟨slot, live⟩ := expired_live shows.kept expired
  obtain ⟨slot', live'⟩ := expired_live shows.kept expired'
  obtain rfl := shows.kept.keyed id other slot slot' live live' (own.trans own'.symm)
  constructor
  · unfold Lane.tick Lane.expire
    simp only [due, Flow.remain_bare, spent, ↓reduceIte, silentBare]
    rfl
  · rw [report_of_due shows.kept expired own, if_neg spent, silentBare]
    rfl

/-- What the lane of a key sees of a call. -/
def glimpse (evIpv4 evIpv6 : EvId) (key : FlowKey) (input : Input) : Glimpse where
  tvSec := input.p.tvSec
  own := if (input.eid = evIpv4 ∨ input.eid = evIpv6) ∧ keyOf input.p = key then some input.p
    else none

theorem counted_initDir (p : Property) (id other : ℕ) (this : ModFlow) :
    ((this.counted p id).flow other).initDir = (this.flow other).initDir := by
  rw [counted_flow]
  split
  · rename_i self
    rw [Flow.initDir_update, self]
  · rfl

/-- Counting a packet keeps the lane in step if what is seen agrees. -/
theorem Shows.counted (shows : Shows evIpv4 evIpv6 key this lane) {id : ℕ}
    {held : Option (ℕ × Flow)} (seen : (this.counted p id).flowTable.Seen
      (fun flow => flow.flowKey = key) Flow.bare held) :
    Shows evIpv4 evIpv6 key (this.counted p id) { lane with held := held } where
  kept := shows.kept.counted p id
  ipv4 := shows.ipv4
  ipv6 := shows.ipv6
  lastTs := shows.lastTs
  currTick := shows.currTick
  held := seen
  directed other slot live different := by
    rw [counted_flowKey] at different
    rw [counted_initDir]
    exact shows.directed other slot live different

/-- A new flow keeps the lane in step if what is seen agrees. -/
theorem Shows.added (shows : Shows evIpv4 evIpv6 key this lane) {flow : Flow}
    (unknown : ∀ id slot, this.flowTable.Live id slot → (this.flow id).flowKey ≠ flow.flowKey)
    (directed : flow.flowKey ≠ key → flow.initDir ≠ .nil) {held : Option (ℕ × Flow)}
    (seen : (this.added flow).flowTable.Seen (fun flow => flow.flowKey = key) Flow.bare held) :
    Shows evIpv4 evIpv6 key (this.added flow) { lane with held := held } where
  kept := shows.kept.added unknown
  ipv4 := shows.ipv4
  ipv6 := shows.ipv6
  lastTs := shows.lastTs
  currTick := shows.currTick.trans (Pool.put_currTick _ _).symm
  held := seen
  directed id slot live different := by
    rcases (added_live shows.kept.size flow id slot).mp live with live | ⟨rfl, -⟩
    · rw [added_flow_of_lt (shows.kept.wf.live_lt live)] at different ⊢
      exact shows.directed id slot live different
    · rw [added_flow_self] at different ⊢
      exact directed different

theorem Lane.handle_known (p : Property) {slot : ℕ} {flow : Flow}
    (held : lane.held = some (slot, flow)) :
    lane.handle (some p) = ⟨[], some { lane with held := some (slot, flow.update p) }⟩ := by
  change lane.packet p = _
  unfold Lane.packet
  rw [held]
  rfl

theorem Lane.handle_fresh (p : Property) (held : lane.held = none) :
    lane.handle (some p) = ⟨[newMessage p (Flow.new p "" "") "" ""],
      some { lane with held := some (lane.slotFor 600, (Flow.new p "" "").update p) }⟩ := by
  change lane.packet p = _
  unfold Lane.packet
  rw [held]
  rfl

/-- Counting a packet of the key. -/
theorem Shows.counted_own (shows : Shows evIpv4 evIpv6 key this lane) {id slot : ℕ}
    (live : this.flowTable.Live id slot) (own : (this.flow id).flowKey = key) :
    Shows evIpv4 evIpv6 key (this.counted p id)
      { lane with held := some (slot, (this.flow id).bare.update p) } := by
  rw [← Flow.bare_update]
  apply shows.counted
  exact shows.held.modify_own live own ((Flow.flowKey_update p _).trans own)

/-- Counting a packet of another key. -/
theorem Shows.counted_other (shows : Shows evIpv4 evIpv6 key this lane) {id : ℕ}
    (other : (this.flow id).flowKey ≠ key) :
    Shows evIpv4 evIpv6 key (this.counted p id) lane := by
  apply shows.counted
  exact shows.held.modify_other other fun own => other ((Flow.flowKey_update p _).symm.trans own)

/-- A new flow of the key is what there is to see of it. -/
theorem Shows.added_own (shows : Shows evIpv4 evIpv6 key this lane) {flow : Flow}
    (unknown : ∀ id slot, this.flowTable.Live id slot → (this.flow id).flowKey ≠ flow.flowKey)
    (own : flow.flowKey = key) : lane.held = none ∧
      Shows evIpv4 evIpv6 key (this.added flow)
        { lane with held := some (lane.slotFor 600, flow.bare) } := by
  have none := shows.held.eq_none fun id slot live mine => unknown id slot live
    (mine.trans own.symm)
  have absent := shows.held
  rw [none] at absent
  refine ⟨none, ?_⟩
  rw [← shows.slotFor]
  exact shows.added unknown (fun other => (other own).elim)
    (absent.add_own shows.kept.wf own shows.kept.fits)

/-- A new flow of another key is not seen. -/
theorem Shows.added_other (shows : Shows evIpv4 evIpv6 key this lane) {flow : Flow}
    (unknown : ∀ id slot, this.flowTable.Live id slot → (this.flow id).flowKey ≠ flow.flowKey)
    (other : flow.flowKey ≠ key) (directed : flow.initDir ≠ .nil) :
    Shows evIpv4 evIpv6 key (this.added flow) lane := by
  exact shows.added unknown (fun _ => directed)
    (shows.held.add_other shows.kept.wf other shows.kept.fits)

/-- **The packet.** The lane handles the packets with its key as the module does,
and those with other keys pass it by. -/
theorem Shows.handled (shows : Shows evIpv4 evIpv6 key this lane) {dns : ModDns} {eid : EvId}
    {events : List FlowEvent} (directed : keyOf p ≠ key → p.dir ≠ .nil)
    (handled : Handled dns eid p this events after) :
    ∃ next, lane.handle (glimpse evIpv4 evIpv6 key ⟨dns, eid, p⟩).own =
        ⟨events.filterMap (report key), some next⟩ ∧ Shows evIpv4 evIpv6 key after next := by
  unfold glimpse
  cases handled with
  | skipped other =>
      rw [shows.ipv4, shows.ipv6] at other
      rw [if_neg fun both => other both.1]
      exact ⟨lane, rfl, shows⟩
  | known id slot ip live same =>
      rw [shows.ipv4, shows.ipv6] at ip
      by_cases own : keyOf p = key
      · have mine : (this.flow id).flowKey = key := same.trans own
        rw [if_pos ⟨ip, own⟩]
        exact ⟨_, Lane.handle_known p (shows.held.eq_some shows.kept.wf live mine),
          shows.counted_own live mine⟩
      · have other : (this.flow id).flowKey ≠ key := fun mine => own (same.symm.trans mine)
        rw [if_neg fun both => own both.2]
        exact ⟨lane, rfl, shows.counted_other other⟩
  | fresh src dst ip srcIs dstIs unknown =>
      rw [shows.ipv4, shows.ipv6] at ip
      have self := added_flow_self (Flow.new p src dst) this
      rw [← Flow.flowKey_new p src dst] at unknown
      by_cases own : keyOf p = key
      · obtain ⟨none, next⟩ := shows.added_own unknown own
        have live := (added_live shows.kept.size (Flow.new p src dst) this.flowTable.built
          (this.flowTable.table.slotFor 600)).mpr (.inr ⟨rfl, rfl⟩)
        have counted := next.counted_own (p := p) live (self.symm ▸ own)
        rw [self, Flow.bare_new, shows.slotFor] at counted
        rw [if_pos ⟨ip, own⟩, Lane.handle_fresh p none]
        refine ⟨_, ?_, counted⟩
        simp only [List.filterMap_cons, report, own, ↓reduceIte, newMessage_without,
          List.filterMap_nil]
      · have next := shows.added_other unknown own (directed own)
        rw [if_neg fun both => own both.2]
        refine ⟨lane, ?_, next.counted_other (self.symm ▸ own)⟩
        simp only [List.filterMap_cons, report, own, ↓reduceIte, List.filterMap_nil]
        rfl

/-- **One call.** The lane of a key reports what the module reports for the key,
and aborts when the module does. -/
theorem Shows.recv (shows : Shows evIpv4 evIpv6 key this lane) {input : Input}
    (directed : keyOf input.p ≠ key → input.p.dir ≠ .nil) :
    (this.recv input.dns input.eid input.p).events.filterMap (report key) =
        (lane.recv (glimpse evIpv4 evIpv6 key input)).events ∧
      Option.Rel (Shows evIpv4 evIpv6 key) (this.recv input.dns input.eid input.p).result
        (lane.recv (glimpse evIpv4 evIpv6 key input)).result := by
  unfold Lane.recv
  change _ = (lane.tick input.p.tvSec >>= _).events ∧ _
  rcases recv_spec input.dns input.eid input.p shows.kept with ⟨stuck, aborted, told⟩ |
    ⟨free, middle, events, after, ticked, handled, same⟩
  · obtain ⟨laneAborts, silent⟩ := shows.tick_aborted stuck
    change _ ∧ Option.Rel _ _ (lane.tick input.p.tvSec >>= _).result
    rw [laneAborts, Exec.bind_of_abort rfl, aborted]
    refine ⟨List.filterMap_eq_nil_iff.mpr fun event member => ?_, .none⟩
    exact List.filterMap_eq_nil_iff.mp silent event (told event member)
  · obtain ⟨next, ticks, shows⟩ := shows.tick ticked free
    obtain ⟨last, handles, shows⟩ := shows.handled directed handled
    change _ ∧ Option.Rel _ _ (lane.tick input.p.tvSec >>= _).result
    rw [ticks, Exec.bind_of_result rfl, handles, same]
    exact ⟨List.filterMap_append, .some shows⟩

/-! ## Runs -/

/-- What a run reports in each call reached. -/
def outputs : ModFlow → List Input → List (List FlowEvent) :=
  Exec.outputs fun this input => this.recv input.dns input.eid input.p

/-- **The module is its lanes.** What a run reports for a key in each call is what
the lane of the key reports. -/
theorem reports_eq_lane (evIpv4 evIpv6 : EvId) (key : FlowKey) (inputs : List Input)
    (directed : ∀ input ∈ inputs, keyOf input.p ≠ key → input.p.dir ≠ .nil) :
    ((ModFlow.new evIpv4 evIpv6).outputs inputs).map (List.filterMap (report key)) =
      Exec.outputs (fun lane glimpse => lane.recv glimpse) Lane.new
        (inputs.map (glimpse evIpv4 evIpv6 key)) := by
  have paired : List.Forall₂ (fun input seen => (keyOf input.p ≠ key → input.p.dir ≠ .nil) ∧
      seen = glimpse evIpv4 evIpv6 key input) inputs
      (inputs.map (glimpse evIpv4 evIpv6 key)) := by
    rw [List.forall₂_map_right_iff, List.forall₂_same]
    exact fun input member => ⟨directed input member, rfl⟩
  rw [← List.map_id (Exec.outputs _ _ _)]
  apply Exec.outputs_map_eq (List.filterMap (report key)) id (Shows evIpv4 evIpv6 key) _ _ paired
    (Shows.new evIpv4 evIpv6 key)
  rintro this lane input _ shows ⟨directed, rfl⟩
  exact shows.recv directed

/-- Two calls agree about a key: they are made in the same second, and either with
the same packet, which has the key, or with packets of other keys, which have a
direction. -/
def Agree (key : FlowKey) (left right : Input) : Prop :=
  left.p.tvSec = right.p.tvSec ∧
    (left.eid = right.eid ∧ left.p = right.p ∧ keyOf left.p = key ∨
      (keyOf left.p ≠ key ∧ left.p.dir ≠ .nil) ∧ keyOf right.p ≠ key ∧ right.p.dir ≠ .nil)

instance (key : FlowKey) (left right : Input) : Decidable (Agree key left right) :=
  inferInstanceAs (Decidable (_ ∧ _))

theorem Agree.directed {left right : Input} (agree : Agree key left right) :
    (keyOf left.p ≠ key → left.p.dir ≠ .nil) ∧ (keyOf right.p ≠ key → right.p.dir ≠ .nil) := by
  obtain ⟨-, ⟨-, same, own⟩ | ⟨⟨-, left⟩, -, right⟩⟩ := agree
  · exact ⟨fun other => (other own).elim, fun other => (other (same ▸ own)).elim⟩
  · exact ⟨fun _ => left, fun _ => right⟩

theorem Agree.glimpse {left right : Input} (agree : Agree key left right) :
    glimpse evIpv4 evIpv6 key left = glimpse evIpv4 evIpv6 key right := by
  unfold ModFlow.glimpse
  obtain ⟨sameSecond, ⟨sameEvent, same, -⟩ | ⟨⟨left, -⟩, right, -⟩⟩ := agree
  · rw [sameEvent, same]
  · rw [sameSecond, if_neg fun both => left both.2, if_neg fun both => right both.2]

/-- **Isolation of flows.** Two runs that agree about a key report for it, in each
call, the same messages, names aside. -/
theorem flows_isolated (evIpv4 evIpv6 : EvId) (key : FlowKey) (lefts rights : List Input)
    (agree : List.Forall₂ (Agree key) lefts rights) :
    ((ModFlow.new evIpv4 evIpv6).outputs lefts).map (List.filterMap (report key)) =
      ((ModFlow.new evIpv4 evIpv6).outputs rights).map (List.filterMap (report key)) := by
  have glimpses : lefts.map (ModFlow.glimpse evIpv4 evIpv6 key) =
      rights.map (ModFlow.glimpse evIpv4 evIpv6 key) := by
    induction agree with
    | nil => rfl
    | cons here _ ih => exact congrArg₂ List.cons here.glimpse ih
  have directed : (∀ input ∈ lefts, keyOf input.p ≠ key → input.p.dir ≠ .nil) ∧
      ∀ input ∈ rights, keyOf input.p ≠ key → input.p.dir ≠ .nil := by
    clear glimpses
    induction agree with
    | nil => exact ⟨List.forall_mem_nil _, List.forall_mem_nil _⟩
    | cons here _ ih =>
        exact ⟨List.forall_mem_cons.mpr ⟨here.directed.1, ih.1⟩,
          List.forall_mem_cons.mpr ⟨here.directed.2, ih.2⟩⟩
  rw [reports_eq_lane evIpv4 evIpv6 key lefts directed.1,
    reports_eq_lane evIpv4 evIpv6 key rights directed.2, glimpses]

/-- A flow beside a flow of another key. -/
def beside : List Input := [.sample 1 1, .sample 2 2, .sample 602 2]

/-- The same flow beside a flow that has its hash value. -/
def colliding : List Input :=
  [.sample 1 1, ⟨ModDns.new, 4, { Property.sample 2 1 with ssnLabel := [1] }⟩, .sample 602 3]

/-- The flow is opened in the first call and logged in the last, in both runs. -/
theorem flows_isolated_sample :
    ((ModFlow.new 4 6).outputs beside).map (List.filterMap (report ⟨1, []⟩)) =
      ((ModFlow.new 4 6).outputs colliding).map (List.filterMap (report ⟨1, []⟩)) ∧
    (((ModFlow.new 4 6).outputs beside).map (List.filterMap (report ⟨1, []⟩))).map List.length =
      [1, 0, 1] := by
  refine ⟨flows_isolated 4 6 ⟨1, []⟩ _ _ ?_, by decide +kernel⟩
  exact .cons (by decide) (.cons (by decide) (.cons (by decide) .nil))

end ModFlow

end Devourer
