import Devourer.Foundation.Yields
import Devourer.Modules.Flow.Conservation
import Devourer.Modules.Flow.Pacing
import Devourer.Modules.Flow.Report
import Devourer.Modules.Flow.Sessions

/-! # The packets of a key, told in conversations

In a run of packets with directions and nondecreasing positive timestamps, what the module
reports for a key is a sequence of conversations: the packets with the key fall into
consecutive parts, each opened by a `flow.new` for its first packet and closed by one
`flow.log` for all of them, and only the last of them may still be open
(`reports_are_conversations`). The logs of a key therefore add up to the packets and bytes
seen, less those of the open flow (`logs_add_up`).
-/

namespace Devourer

namespace ModFlow

/-- The packets of one flow, of which there is a first. -/
structure Conversation where
  first : Property
  rest : List Property

namespace Conversation

def packets (this : Conversation) : List Property := this.first :: this.rest

/-- The flow that the packets make. -/
def flow (this : Conversation) : Flow := (Flow.new this.first "" "").updates this.packets

def opening (this : Conversation) : Message :=
  newMessage this.first (Flow.new this.first "" "") "" ""

def closing (this : Conversation) : List Message := this.flow.buildMessage.toList

/-- One more packet. -/
def add (p : Property) (this : Conversation) : Conversation :=
  { this with rest := this.rest ++ [p] }

end Conversation

/-- The conversations of a key: those that are over, and the one that goes on. -/
structure Conversations where
  past : List Conversation
  current : Option Conversation

namespace Conversations

def packets (this : Conversations) : List Property :=
  this.past.flatMap Conversation.packets ++ this.current.elim [] Conversation.packets

def told (this : Conversations) : List Message :=
  this.past.flatMap (fun part => part.opening :: part.closing) ++
    (this.current.map Conversation.opening).toList

/-- The current conversation is over. -/
def close (this : Conversations) : Conversations := ⟨this.past ++ this.current.toList, none⟩

/-- The next packet is of the current conversation, or begins one. -/
def add (p : Property) (this : Conversations) : Conversations :=
  { this with current := some (this.current.elim ⟨p, []⟩ (Conversation.add p)) }

theorem packets_close (this : Conversations) : this.close.packets = this.packets := by
  obtain ⟨past, current⟩ := this
  cases current <;> simp [close, packets]

theorem packets_add (p : Property) (this : Conversations) :
    (this.add p).packets = this.packets ++ [p] := by
  obtain ⟨past, current⟩ := this
  cases current <;> simp [add, packets, Conversation.packets, Conversation.add]

theorem told_close (this : Conversations) :
    this.close.told = this.told ++ this.current.elim [] Conversation.closing := by
  obtain ⟨past, current⟩ := this
  cases current <;> simp [close, told]

theorem told_add (p : Property) (this : Conversations) :
    (this.add p).told =
      this.told ++ if this.current.isNone then [(⟨p, []⟩ : Conversation).opening] else [] := by
  obtain ⟨past, current⟩ := this
  cases current <;> simp [add, told, Conversation.opening, Conversation.add]

end Conversations

/-! ## What the session holds -/

/-- The flow of the session is made by the packets of the current conversation, and is held
at most `flowTimeout` from when it was last looked at. -/
structure Session.Keeps (session : Session) (until_ : ℤ) (flow : Flow) (current : Conversation) :
    Prop where
  held : session.flow = some (until_, flow)
  made : current.flow.refresh flow.refreshedAt = flow
  directed : current.first.dir ≠ .nil
  seen : flow.updatedAt ≤ session.clock
  ahead : session.clock ≤ until_
  patient : until_ - flow.refreshedAt ≤ 600

/-- The current conversation is that of the flow, if there is one. -/
inductive Session.Recounts (session : Session) : Option Conversation → Prop where
  | idle : session.flow = none → session.Recounts none
  | busy (until_ : ℤ) (flow : Flow) (current : Conversation) :
      session.Keeps until_ flow current → session.Recounts (some current)

variable {session : Session} {tvSec until_ : ℤ} {flow : Flow} {current : Conversation}
  {p : Property}

theorem Conversation.closing_of_made (made : current.flow.refresh flow.refreshedAt = flow) :
    current.closing = flow.buildMessage.toList := by
  rw [← made]
  rfl

theorem Session.Keeps.initDir (keeps : session.Keeps until_ flow current) :
    flow.initDir = current.first.dir := by
  rw [← keeps.made]
  exact Flow.updates_fixed Flow.initDir_update current.packets _

/-- A tick that does not reach the end of the lease leaves the flow. -/
theorem Session.Keeps.wait (keeps : session.Keeps until_ flow current)
    (forward : session.clock ≤ tvSec) (waiting : tvSec ≤ until_) :
    ({ session with clock := tvSec } : Session).Keeps until_ flow current where
  held := keeps.held
  made := keeps.made
  directed := keeps.directed
  seen := keeps.seen.trans forward
  ahead := waiting
  patient := keeps.patient

/-- A flow that is looked at and kept on. -/
theorem Session.Keeps.again (keeps : session.Keeps until_ flow current)
    (forward : session.clock ≤ tvSec) (remains : 0 < flow.remain) : flow.remain < 3600 ∧
      Session.Keeps ⟨tvSec, some (tvSec + flow.remain, flow.refresh tvSec)⟩
        (tvSec + flow.remain) (flow.refresh tvSec) current := by
  obtain ⟨held, made, directed, seen, ahead, patient⟩ := keeps
  have short : flow.remain ≤ 600 := by
    unfold Flow.remain
    split <;> omega
  refine ⟨by omega, rfl, ?_, directed, seen.trans forward, ?_, ?_⟩
  · rw [← made]
    rfl
  · change tvSec ≤ tvSec + flow.remain
    omega
  · change tvSec + flow.remain - tvSec ≤ 600
    omega

/-- One more packet of the flow. -/
theorem Session.Keeps.update (keeps : session.Keeps until_ flow current)
    (here : p.tvSec = session.clock) :
    ({ session with flow := some (until_, flow.update p) } : Session).Keeps until_ (flow.update p)
      (current.add p) where
  held := rfl
  made := by
    have more : (current.add p).flow = current.flow.update p := by
      change (Flow.new current.first "" "").updates (current.packets ++ [p]) = _
      exact Flow.updates_snoc current.packets p _
    rw [more, Flow.refreshedAt_update, ← Flow.refresh_update, keeps.made]
  directed := keeps.directed
  seen := by rw [Flow.updatedAt_update, here]
  ahead := keeps.ahead
  patient := by
    rw [Flow.refreshedAt_update]
    exact keeps.patient

theorem Session.keeps_new (here : p.tvSec = session.clock) (directed : p.dir ≠ .nil) :
    ({ session with flow := some (session.clock + 600, (Flow.new p "" "").update p) } :
      Session).Keeps (session.clock + 600) ((Flow.new p "" "").update p) ⟨p, []⟩ where
  held := rfl
  made := rfl
  directed := directed
  seen := by rw [Flow.updatedAt_update, here]
  ahead := by
    change session.clock ≤ session.clock + 600
    omega
  patient := by
    rw [Flow.refreshedAt_update]
    change session.clock + 600 - p.tvSec ≤ 600
    omega

/-- The conversations account for the packets and the messages, and the session for the current
one. -/
structure Session.Tells (session : Session) (packets : List Property) (events : List Message)
    (parts : Conversations) : Prop where
  recounts : session.Recounts parts.current
  packets : parts.packets = packets
  told : parts.told = events
  directed : ∀ part ∈ parts.past, part.first.dir ≠ .nil

variable {packets : List Property} {events : List Message} {parts : Conversations}

theorem Session.Tells.new : Session.new.Tells [] [] ⟨[], none⟩ where
  recounts := .idle rfl
  packets := rfl
  told := rfl
  directed := List.forall_mem_nil _

/-- The current conversation closes. -/
theorem Session.Tells.close (tells : session.Tells packets events parts)
    (keeps : session.Keeps until_ flow current) (busy : parts.current = some current) :
    Session.Tells ⟨tvSec, none⟩ packets (events ++ flow.buildMessage.toList) parts.close where
  recounts := .idle rfl
  packets := parts.packets_close.trans tells.packets
  told := by
    rw [parts.told_close, tells.told, busy, Option.elim_some,
      Conversation.closing_of_made keeps.made]
  directed := by
    intro part member
    change part ∈ parts.past ++ parts.current.toList at member
    rw [busy, Option.toList_some, List.mem_append, List.mem_singleton] at member
    rcases member with ended | rfl
    · exact tells.directed part ended
    · exact keeps.directed

/-- **The tick** leaves the current conversation or closes it. -/
theorem Session.Tells.tick (tells : session.Tells packets events parts)
    (forward : session.clock ≤ tvSec) :
    (session.tick tvSec).Yields fun more next => next.clock = tvSec ∧
      ∃ parts, next.Tells packets (events ++ more) parts := by
  have now : max session.clock tvSec = tvSec := max_eq_right forward
  have left : ∀ next : Session, next.clock = tvSec → next.Recounts parts.current →
      next.clock = tvSec ∧ ∃ parts, next.Tells packets (events ++ []) parts := by
    intro next clock recounts
    rw [List.append_nil]
    exact ⟨clock, parts, recounts, tells.packets, tells.told, tells.directed⟩
  have recounts := tells.recounts
  generalize same : parts.current = current at recounts left
  cases recounts with
  | idle none =>
      rw [tick_of_waiting (by rw [none]; nofun), now]
      exact .pure (left _ rfl (.idle none))
  | busy until_ flow current keeps =>
      by_cases overdue : until_ < tvSec
      · rw [tick_of_overdue keeps.held overdue]
        unfold expire
        by_cases remains : 0 < flow.remain
        · obtain ⟨short, again⟩ := keeps.again forward remains
          rw [if_pos remains, if_pos short]
          exact .pure (left _ rfl (.busy _ _ _ again))
        · have closed : Session.Tells ⟨tvSec, none⟩ packets (events ++ flow.buildMessage.toList)
              parts.close := tells.close keeps same
          rw [if_neg remains]
          cases built : flow.buildMessage with
          | none =>
              rw [Flow.buildMessage_eq_none, keeps.initDir] at built
              exact (keeps.directed built).elim
          | some msg =>
              rw [built] at closed
              rw [Exec.ofOption_some_bind]
              refine .emit_bind (.pure ?_)
              exact ⟨rfl, _, closed⟩
      · have waiting : ∀ entry ∈ session.flow, tvSec ≤ entry.1 := by
          rw [keeps.held]
          rintro _ ⟨⟩
          exact Int.not_lt.mp overdue
        rw [tick_of_waiting waiting, now]
        exact .pure (left _ rfl (.busy _ _ _ (keeps.wait forward (Int.not_lt.mp overdue))))

/-- **The packet** is of the current conversation, or opens one. -/
theorem Session.Tells.packet (tells : session.Tells packets events parts)
    (here : p.tvSec = session.clock) (directed : p.dir ≠ .nil) :
    (session.packet p).Yields fun more next => next.clock = session.clock ∧
      ∃ parts, next.Tells (packets ++ [p]) (events ++ more) parts := by
  have added : ∀ (next : Session) (more : List Message),
      more = (if parts.current.isNone then [(⟨p, []⟩ : Conversation).opening] else []) →
      next.Recounts (parts.add p).current →
      ∃ parts, next.Tells (packets ++ [p]) (events ++ more) parts := by
    intro next more same recounts
    refine ⟨parts.add p, recounts, ?_, ?_, tells.directed⟩
    · rw [parts.packets_add, tells.packets]
    · rw [parts.told_add, tells.told, same]
  have recounts := tells.recounts
  unfold Session.packet
  generalize same : parts.current = current at recounts added
  cases recounts with
  | idle none =>
      rw [none]
      refine .emit_bind (.pure ⟨rfl, added _ _ rfl ?_⟩)
      change Session.Recounts _ (some (parts.current.elim _ _))
      rw [same]
      exact .busy _ _ _ (keeps_new here directed)
  | busy until_ flow current keeps =>
      rw [keeps.held]
      refine .pure ⟨rfl, added _ _ rfl ?_⟩
      change Session.Recounts _ (some (parts.current.elim _ _))
      rw [same]
      exact .busy _ _ _ (keeps.update here)

/-! ## Runs -/

/-- The packets with the key that the module gets to count. -/
def ownPackets (evIpv4 evIpv6 : EvId) (key : FlowKey) (inputs : List Input) : List Property :=
  (inputs.map (glimpse evIpv4 evIpv6 key)).filterMap Glimpse.own

theorem Session.Tells.recv {seen : Glimpse} (tells : session.Tells packets events parts)
    (forward : session.clock ≤ seen.tvSec)
    (own : ∀ p ∈ seen.own, p.tvSec = seen.tvSec ∧ p.dir ≠ .nil) :
    (session.recv seen).Yields fun more next => next.clock = seen.tvSec ∧
      ∃ parts, next.Tells (packets ++ seen.own.toList) (events ++ more) parts := by
  apply (tells.tick forward).bind
  rintro ticked middle ⟨clock, parts, tells⟩
  cases same : seen.own with
  | none =>
      refine .pure ⟨clock, parts, ?_⟩
      simpa using tells
  | some p =>
      obtain ⟨here, directed⟩ := own p same
      apply (tells.packet (here.trans clock.symm) directed).mono
      rintro more next ⟨still, parts, tells⟩
      rw [List.append_assoc] at tells
      exact ⟨still.trans clock, parts, tells⟩

/-- The clock shows the second of the last call, and the session tells of the packets. -/
def Session.Latest (calls : List Glimpse) (events : List Message) (session : Session) : Prop :=
  (session.clock = 0 ∨ ∃ call ∈ calls, session.clock = call.tvSec) ∧
    ∃ parts, session.Tells (calls.filterMap Glimpse.own) events parts

/-- The session of a sorted run tells of the packets it was shown. -/
theorem Session.Tells.run {inputs : List Glimpse}
    (sorted : inputs.Pairwise fun earlier later => earlier.tvSec ≤ later.tvSec)
    (legal : ∀ seen ∈ inputs,
      0 < seen.tvSec ∧ ∀ p ∈ seen.own, p.tvSec = seen.tvSec ∧ p.dir ≠ .nil) :
    (Session.new.run inputs).Yields fun events session =>
      ∃ parts, session.Tells (inputs.filterMap Glimpse.own) events parts := by
  have yields : (Session.new.run inputs).Yields (Latest inputs) := by
    apply Exec.Yields.run Latest ⟨.inl rfl, _, Tells.new⟩
    rintro calls seen front events session ⟨latest, parts, tells⟩
    obtain ⟨positive, own⟩ := legal seen (front.subset (by simp))
    have forward : session.clock ≤ seen.tvSec := by
      have ordered := sorted.sublist front.sublist
      rcases latest with zero | ⟨call, member, same⟩
      · omega
      · rw [same]
        exact (List.pairwise_append.mp ordered).2.2 call member seen List.mem_cons_self
    apply (tells.recv forward own).mono
    rintro more next ⟨clock, parts, tells⟩
    refine ⟨.inr ⟨seen, by simp, clock⟩, parts, ?_⟩
    rw [List.filterMap_append]
    cases same : seen.own <;> simpa [same] using tells
  apply yields.mono
  rintro events session ⟨-, told⟩
  exact told

/-- What a run of the module reports for a key is what its session reports. -/
theorem run_reports_eq (evIpv4 evIpv6 : EvId) (key : FlowKey) {inputs : List Input}
    (valid : ∀ input ∈ inputs, Valid input) :
    ((ModFlow.new evIpv4 evIpv6).run inputs).events.filterMap (report key) =
      (Session.new.run (inputs.map (glimpse evIpv4 evIpv6 key))).events := by
  have legal := glimpses_legal evIpv4 evIpv6 key fun input member => (valid input member).1
  have directed := fun input member (_ : keyOf input.p ≠ key) => (valid input member).2
  have same := congrArg List.flatten
    ((reports_eq_lane evIpv4 evIpv6 key inputs directed).trans (lane_outputs_eq legal))
  rw [outputs, ← List.filterMap_flatten, ← Exec.run_events, ← Exec.run_events] at same
  exact same

/-- What is reported of a conversation that makes its own story. -/
def Conversation.story (this : Conversation) : List FlowEvent :=
  .emitNew 0 (keyOf this.first) this.opening :: this.packets.map (.counted 0)

theorem Conversation.story_spec (this : Conversation) :
    Story 0 this.story this.first this.rest "" "" this.flow where
  counted := by
    unfold story
    simp only [ModFlow.packets, List.filterMap_cons, List.filterMap_map]
    exact List.filterMap_some
  opening msg := by
    unfold IsOpening story
    simp [Conversation.opening]
  flow := rfl

theorem Conversation.closing_of_directed {part : Conversation} (directed : part.first.dir ≠ .nil) :
    ∃ log, part.closing = [log] ∧ part.flow.buildMessage = some log := by
  have initDir : part.flow.initDir = part.first.dir :=
    Flow.updates_fixed Flow.initDir_update part.packets _
  cases built : part.flow.buildMessage with
  | none =>
      rw [Flow.buildMessage_eq_none, initDir] at built
      exact (directed built).elim
  | some log =>
      refine ⟨log, ?_, rfl⟩
      rw [Conversation.closing, built, Option.toList_some]

/-- The flow of the session is that of the current conversation, whenever it was last looked
at. -/
theorem Session.Recounts.held {current : Option Conversation}
    (recounts : session.Recounts current) :
    session.flow.map (fun entry => entry.2.refresh 0) =
      current.map fun part => part.flow.refresh 0 := by
  cases recounts with
  | idle none => rw [none]; rfl
  | busy until_ flow current keeps =>
      rw [keeps.held]
      simp only [Option.map_some]
      rw [← keeps.made]
      rfl

/-- The conversations account for a run: for the packets with the key, for what is reported of
it, and for its flow in the table. -/
structure Accounts (evIpv4 evIpv6 : EvId) (key : FlowKey) (inputs : List Input) (this : ModFlow)
    (parts : Conversations) : Prop where
  packets : parts.packets = ownPackets evIpv4 evIpv6 key inputs
  told : ((ModFlow.new evIpv4 evIpv6).run inputs).events.filterMap (report key) = parts.told
  held : (this.flowTable.get Flow.virt key.hv key.label).map
      (fun id => (this.flow id).bare.refresh 0) = parts.current.map fun part => part.flow.refresh 0

/-- A sorted run returns, and falls into conversations for every key. -/
theorem exists_accounts (evIpv4 evIpv6 : EvId) (key : FlowKey) {inputs : List Input}
    (sorted : Sorted inputs) (valid : ∀ input ∈ inputs, Valid input) :
    ∃ this parts, ((ModFlow.new evIpv4 evIpv6).run inputs).result = some this ∧
      Accounts evIpv4 evIpv6 key inputs this parts ∧
      ∀ part ∈ parts.past, part.first.dir ≠ .nil := by
  have ordered : (inputs.map (glimpse evIpv4 evIpv6 key)).Pairwise fun earlier later =>
      earlier.tvSec ≤ later.tvSec := by
    rwa [List.pairwise_map]
  have legal : ∀ seen ∈ inputs.map (glimpse evIpv4 evIpv6 key), 0 < seen.tvSec ∧
      ∀ p ∈ seen.own, p.tvSec = seen.tvSec ∧ p.dir ≠ .nil := by
    intro seen member
    obtain ⟨input, called, rfl⟩ := List.mem_map.mp member
    obtain ⟨positive, directed⟩ := valid input called
    refine ⟨positive, fun p own => ?_⟩
    obtain ⟨-, same⟩ := Option.ite_none_right_eq_some.mp own
    rw [← Option.some.inj same]
    exact ⟨rfl, directed⟩
  obtain ⟨session, returned, parts, tells⟩ := Session.Tells.run ordered legal
  have plays := plays_run evIpv4 evIpv6 key (fun input member => (valid input member).1)
    fun input member _ => (valid input member).2
  rw [returned] at plays
  generalize reached : ((ModFlow.new evIpv4 evIpv6).run inputs).result = result at plays
  cases plays with
  | some plays =>
      rename_i this
      refine ⟨this, parts, rfl, ⟨tells.packets, ?_, ?_⟩, tells.directed⟩
      · rw [run_reports_eq evIpv4 evIpv6 key valid, tells.told]
      · rw [← tells.recounts.held]
        have same := congrArg (Option.map (Flow.refresh 0)) plays.get
        rwa [Option.map_map, Option.map_map] at same

/-- **The packets of a key, told in conversations.** A run of packets with directions and
nondecreasing positive timestamps returns, and the packets with a key fall into consecutive
parts. What is reported for the key is, names aside and in this order, one `flow.new` for the
first packet of each part and one `flow.log` for all of them, which is exact as long as its
totals are small; only the last part may be without its `flow.log`, and then and only then is
its flow in the table. -/
theorem reports_are_conversations (evIpv4 evIpv6 : EvId) (key : FlowKey) (inputs : List Input)
    (sorted : Sorted inputs) (valid : ∀ input ∈ inputs, Valid input) :
    ∃ this parts, ((ModFlow.new evIpv4 evIpv6).run inputs).result = some this ∧
      Accounts evIpv4 evIpv6 key inputs this parts ∧
      ∀ part ∈ parts.past, ∃ log, part.closing = [log] ∧
        (Exact part.first.dir part.packets log ↔ Small part.packets) := by
  obtain ⟨this, parts, reached, accounts, directed⟩ :=
    exists_accounts evIpv4 evIpv6 key sorted valid
  refine ⟨this, parts, reached, accounts, fun part past => ?_⟩
  obtain ⟨log, closing, built⟩ := Conversation.closing_of_directed (directed part past)
  exact ⟨log, closing, part.story_spec.exact_iff built⟩

/-- A key in use before and after a long break. -/
theorem reports_are_conversations_sample :
    ∃ this parts, Accounts 4 6 ⟨1, []⟩ [.sample 5 1, .sample 5 2, .sample 700 1] this parts ∧
      parts.told.length = 3 ∧ parts.packets.length = 2 := by
  obtain ⟨this, parts, -, accounts, -⟩ := reports_are_conversations 4 6 ⟨1, []⟩
    [.sample 5 1, .sample 5 2, .sample 700 1] (by decide) (by decide)
  refine ⟨this, parts, accounts, ?_⟩
  rw [← accounts.told, accounts.packets]
  decide +kernel

/-! ## The sums of the logs -/

/-- What the message reports under the two names together. -/
def amount (names : String × String) (msg : Message) : ℤ :=
  let number := fun name => match msg.field name with
    | some (.int value) => value
    | _ => 0
  number names.1 + number names.2

/-- The `flow.log` messages. -/
def logsOf (msgs : List Message) : List Message := msgs.filter fun msg => msg.tag = "flow.log"

def bytes (packets : List Property) : ℕ := (packets.map fun p => p.len.toNat).sum

/-- A packet with a direction travels one way or the other. -/
theorem opposite_iff {dir : FlowDir} (directed : dir ≠ .nil) {p : Property} (own : p.dir ≠ .nil) :
    p.dir = dir.opposite ↔ ¬ p.dir = dir := by
  cases dir with
  | nil => exact (directed rfl).elim
  | l2r => cases way : p.dir <;> simp [FlowDir.opposite, way] at own ⊢
  | r2l => cases way : p.dir <;> simp [FlowDir.opposite, way] at own ⊢

/-- The two directions have all packets and all bytes. -/
theorem bothWays {dir : FlowDir} (directed : dir ≠ .nil) {packets : List Property}
    (all : ∀ p ∈ packets, p.dir ≠ .nil) :
    pktsOf dir packets + pktsOf dir.opposite packets = packets.length ∧
      bytesOf dir packets + bytesOf dir.opposite packets = bytes packets := by
  induction packets with
  | nil => exact ⟨rfl, rfl⟩
  | cons p rest ih =>
      obtain ⟨own, others⟩ := List.forall_mem_cons.mp all
      obtain ⟨pkts, sizes⟩ := ih others
      unfold pktsOf at pkts ⊢
      unfold bytesOf bytes at sizes ⊢
      by_cases here : p.dir = dir
      · have yes := decide_eq_true here
        have no := decide_eq_false fun back => (opposite_iff directed own).mp back here
        simp only [List.countP_cons, List.filter_cons, yes, no, Bool.false_eq_true, ↓reduceIte,
          List.length_cons, List.map_cons, List.sum_cons]
        omega
      · have no := decide_eq_false here
        have yes := decide_eq_true ((opposite_iff directed own).mpr here)
        simp only [List.countP_cons, List.filter_cons, yes, no, Bool.false_eq_true, ↓reduceIte,
          List.length_cons, List.map_cons, List.sum_cons]
        omega

/-- What an exact `flow.log` reports are the packets and bytes of both directions. -/
theorem Exact.amounts {dir : FlowDir} {packets : List Property} {log : Message}
    (exact : Exact dir packets log) (directed : dir ≠ .nil) (all : ∀ p ∈ packets, p.dir ≠ .nil) :
    amount ("c_pkt", "s_pkt") log = packets.length ∧
      amount ("c_size", "s_size") log = bytes packets := by
  obtain ⟨cPkt, sPkt, cSize, sSize⟩ := exact
  obtain ⟨pkts, sizes⟩ := bothWays directed all
  simp only [amount, cPkt, sPkt, cSize, sSize]
  omega

theorem tag_newMessage (p : Property) (flow : Flow) (src dst : String) :
    (newMessage p flow src dst).tag = "flow.new" := by
  unfold newMessage
  split <;> simp [Message.retain]

theorem tag_buildMessage {flow : Flow} {log : Message} (built : flow.buildMessage = some log) :
    log.tag = "flow.log" := by
  unfold Flow.buildMessage at built
  cases dir : flow.initDir <;> simp only [dir, Option.some.injEq, reduceCtorEq] at built <;>
    subst built <;> simp [Flow.setEnds, Message.retain]

/-- The logs among the messages are those of the conversations that are over. -/
theorem Conversations.logsOf_told {parts : Conversations}
    (directed : ∀ part ∈ parts.past, part.first.dir ≠ .nil) :
    logsOf parts.told = parts.past.flatMap Conversation.closing := by
  have opening : ∀ part : Conversation, ¬ part.opening.tag = "flow.log" := by
    intro part
    rw [Conversation.opening, tag_newMessage]
    decide
  have none : logsOf (parts.current.map Conversation.opening).toList = [] := by
    cases parts.current with
    | none => rfl
    | some part => simp [logsOf, opening]
  unfold told
  rw [logsOf, List.filter_append, ← logsOf, ← logsOf, none, List.append_nil]
  generalize parts.past = past at directed
  induction past with
  | nil => rfl
  | cons part rest ih =>
      obtain ⟨own, others⟩ := List.forall_mem_cons.mp directed
      obtain ⟨log, closing, built⟩ := Conversation.closing_of_directed own
      have rests := ih others
      unfold logsOf at rests ⊢
      simp only [List.flatMap_cons, List.cons_append, List.filter_cons, opening, decide_false,
        Bool.false_eq_true, ↓reduceIte, List.filter_append, closing, tag_buildMessage built,
        decide_true, List.filter_nil, rests]

/-- Conversations with small totals add up to what their logs report. -/
theorem sum_closings {past : List Conversation}
    (directed : ∀ part ∈ past, ∀ p ∈ part.packets, p.dir ≠ .nil)
    (few : (past.flatMap Conversation.packets).length < 2 ^ 31)
    (short : bytes (past.flatMap Conversation.packets) < 2 ^ 31) :
    ((past.flatMap Conversation.closing).map (amount ("c_pkt", "s_pkt"))).sum =
        (past.flatMap Conversation.packets).length ∧
      ((past.flatMap Conversation.closing).map (amount ("c_size", "s_size"))).sum =
        bytes (past.flatMap Conversation.packets) := by
  induction past with
  | nil => exact ⟨rfl, rfl⟩
  | cons part rest ih =>
      obtain ⟨own, others⟩ := List.forall_mem_cons.mp directed
      have head : part.first.dir ≠ .nil := own _ List.mem_cons_self
      obtain ⟨log, closing, built⟩ := Conversation.closing_of_directed head
      simp only [List.flatMap_cons, List.length_append, bytes, List.map_append,
        List.sum_append] at few short ⊢
      obtain ⟨pkts, sizes⟩ := ih others (by omega) (by unfold bytes; omega)
      have small : Small part.packets := by
        intro dir some
        obtain ⟨both, bothSizes⟩ := bothWays some own
        unfold bytes at bothSizes
        omega
      have exact : Exact part.first.dir part.packets log :=
        (part.story_spec.exact_iff built).mpr small
      obtain ⟨count, size⟩ := exact.amounts head own
      unfold bytes at sizes size
      rw [closing, pkts, sizes]
      simp only [List.map_cons, List.map_nil, List.sum_cons, List.sum_nil, count, size]
      constructor
      · omega
      · omega

theorem directed_of_ownPackets {evIpv4 evIpv6 : EvId} {key : FlowKey} {inputs : List Input}
    (valid : ∀ input ∈ inputs, Valid input) :
    ∀ p ∈ ownPackets evIpv4 evIpv6 key inputs, p.dir ≠ .nil := by
  intro p member
  obtain ⟨seen, shown, own⟩ := List.mem_filterMap.mp member
  obtain ⟨input, called, rfl⟩ := List.mem_map.mp shown
  obtain ⟨-, same⟩ := Option.ite_none_right_eq_some.mp own
  rw [← Option.some.inj same]
  exact (valid input called).2

/-- **The logs add up.** In a run of packets with directions and nondecreasing positive
timestamps, with fewer than `2 ^ 31` packets of a key and fewer than `2 ^ 31` bytes in them,
what the `flow.log` messages of the key report are all its packets and bytes but for those of
the last packets, which wait in the table. -/
theorem logs_add_up (evIpv4 evIpv6 : EvId) (key : FlowKey) (inputs : List Input)
    (sorted : Sorted inputs) (valid : ∀ input ∈ inputs, Valid input)
    (few : (ownPackets evIpv4 evIpv6 key inputs).length < 2 ^ 31)
    (short : bytes (ownPackets evIpv4 evIpv6 key inputs) < 2 ^ 31) :
    ∃ this logged waiting, ((ModFlow.new evIpv4 evIpv6).run inputs).result = some this ∧
      ownPackets evIpv4 evIpv6 key inputs = logged ++ waiting ∧
      (this.flowTable.get Flow.virt key.hv key.label = none ↔ waiting = []) ∧
      let logs := logsOf
        (((ModFlow.new evIpv4 evIpv6).run inputs).events.filterMap (report key))
      (logs.map (amount ("c_pkt", "s_pkt"))).sum = logged.length ∧
      (logs.map (amount ("c_size", "s_size"))).sum = bytes logged := by
  obtain ⟨this, parts, reached, accounts, directed⟩ :=
    exists_accounts evIpv4 evIpv6 key sorted valid
  refine ⟨this, parts.past.flatMap Conversation.packets,
    parts.current.elim [] Conversation.packets, reached, accounts.packets.symm, ?_, ?_⟩
  · have held := accounts.held
    cases current : parts.current with
    | none =>
        rw [current, Option.map_none, Option.map_eq_none_iff] at held
        simp [held]
    | some part =>
        rw [current] at held
        cases found : this.flowTable.get Flow.virt key.hv key.label with
        | none =>
            rw [found] at held
            cases held
        | some id => simp [Conversation.packets]
  · have whole := accounts.packets
    have directed' : ∀ part ∈ parts.past, ∀ p ∈ part.packets, p.dir ≠ .nil := by
      intro part past p member
      apply directed_of_ownPackets valid p
      rw [← whole]
      exact List.mem_append_left _ (List.mem_flatMap.mpr ⟨part, past, member⟩)
    rw [← whole, Conversations.packets, List.length_append] at few
    rw [← whole, Conversations.packets, bytes, List.map_append, List.sum_append] at short
    rw [accounts.told, Conversations.logsOf_told directed]
    exact sum_closings directed' (by omega) (by unfold bytes; omega)

/-- Three packets of a key, of which the first two are logged. -/
theorem logs_add_up_sample : ∃ logged waiting,
    ownPackets 4 6 ⟨1, []⟩ [.sample 5 1, .sample 7 1, .sample 5000 1] = logged ++ waiting ∧
      ((logsOf (((ModFlow.new 4 6).run
        [.sample 5 1, .sample 7 1, .sample 5000 1]).events.filterMap (report ⟨1, []⟩))).map
          (amount ("c_pkt", "s_pkt"))).sum = logged.length := by
  obtain ⟨-, logged, waiting, -, split, -, pkts, -⟩ := logs_add_up 4 6 ⟨1, []⟩
    [.sample 5 1, .sample 7 1, .sample 5000 1] (by decide) (by decide) (by decide) (by decide)
  exact ⟨logged, waiting, split, pkts⟩

end ModFlow

end Devourer
