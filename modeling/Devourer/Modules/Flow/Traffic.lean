import Devourer.Modules.Flow.Story
import Mathlib.Algebra.BigOperators.Intervals
import Mathlib.Data.Int.ModEq

/-! # Every packet is accounted for once

A call counts its packet in one direction of one flow and touches no other
counter. The counters of all flows ever built, whether they are still in the
table or not, therefore add up to the traffic handled, in 32 bits; so do the
counters of the flows with one hash string and the bytes kept for this string in
`update_map_` (`traffic_conserved`).
-/

namespace Devourer

open Finset

namespace ModFlow

/-- The packets and bytes counted in a direction of the flow; a flow that was not
built yet has counted nothing. -/
def traffic (id : ℕ) (dir : FlowDir) (this : ModFlow) : Int32 × Int32 :=
  if id < this.flowTable.built then ((this.flow id).pkt dir, (this.flow id).size dir) else (0, 0)

/-- The call counted its packet in one direction of one flow, the one that the table
holds for the key of the packet, and changed no other counter. -/
def CountsOnce (p : Property) (before after : ModFlow) : Prop :=
  ∃ id, after.flowTable.get Flow.virt p.hashValue p.ssnLabel = some id ∧
    ∀ other dir, dir ≠ .nil → after.traffic other dir =
      if other = id ∧ p.dir = dir then
        before.traffic other dir + (1, Int32.ofNat p.len.toNat)
      else before.traffic other dir

/-- The bytes counted in the flows with the hash string. -/
def bytesUnder (hex : String) (this : ModFlow) : ℤ :=
  ∑ id ∈ (range this.flowTable.built).filter fun id => (this.flow id).hvHex = hex,
    ((this.flow id).lSize.toInt + (this.flow id).rSize.toInt)

/-- The packets counted in all flows. -/
def packetsCounted (this : ModFlow) : ℤ :=
  ∑ id ∈ range this.flowTable.built, ((this.flow id).lPkt.toInt + (this.flow id).rPkt.toInt)

/-- The counters of the flows agree with `update_map_` and with the number of packets
handled, in 32 bits. -/
structure Balanced (handled : ℕ) (this : ModFlow) : Prop where
  bytes : ∀ hex, ((this.updateMap hex).getD 0).toNat ≡ this.bytesUnder hex [ZMOD 2 ^ 32]
  packets : handled ≡ this.packetsCounted [ZMOD 2 ^ 32]

/-! ## Arithmetic of the counters -/

theorem bmod_modEq (value : ℤ) : value.bmod (2 ^ 32) ≡ value [ZMOD 2 ^ 32] := by
  have same := @Int.bmod_emod value (2 ^ 32)
  exact_mod_cast same

theorem toInt_add_ofNat (counter : Int32) (more : ℕ) :
    (counter + Int32.ofNat more).toInt ≡ counter.toInt + more [ZMOD 2 ^ 32] := by
  have added : (Int32.ofNat more).toInt ≡ more [ZMOD 2 ^ 32] := by
    rw [Int32.toInt_ofNat']
    exact bmod_modEq more
  rw [Int32.toInt_add]
  exact (bmod_modEq _).trans (added.add_left counter.toInt)

/-- A packet with a direction adds its bytes and itself to the sums of a flow. -/
theorem sums_update {p : Property} (directed : p.dir ≠ .nil) (flow : Flow) :
    (flow.update p).lSize.toInt + (flow.update p).rSize.toInt ≡
      flow.lSize.toInt + flow.rSize.toInt + p.len.toNat [ZMOD 2 ^ 32] ∧
    (flow.update p).lPkt.toInt + (flow.update p).rPkt.toInt ≡
      flow.lPkt.toInt + flow.rPkt.toInt + 1 [ZMOD 2 ^ 32] := by
  unfold Flow.update
  cases dir : p.dir with
  | nil => exact (directed dir).elim
  | l2r =>
      have size := (toInt_add_ofNat flow.lSize p.len.toNat).add_right flow.rSize.toInt
      have pkt := (toInt_add_ofNat flow.lPkt 1).add_right flow.rPkt.toInt
      rw [add_right_comm] at size pkt
      exact ⟨size, pkt⟩
  | r2l =>
      have size := (toInt_add_ofNat flow.rSize p.len.toNat).add_left flow.lSize.toInt
      have pkt := (toInt_add_ofNat flow.rPkt 1).add_left flow.lPkt.toInt
      rw [← add_assoc] at size pkt
      exact ⟨size, pkt⟩

/-- More bytes under a hash string. -/
theorem addBytes_modEq (map : String → Option UInt64) (under hex : String) (len : UInt64) :
    ((addBytes map under len hex).getD 0).toNat ≡
      ((map hex).getD 0).toNat + ((if under = hex then len.toNat else 0 : ℕ) : ℤ)
        [ZMOD 2 ^ 32] := by
  unfold addBytes
  by_cases own : under = hex
  · subst own
    rw [Function.update_self, if_pos rfl]
    cases map under with
    | none => simp
    | some total =>
        simp only [Option.getD_some, UInt64.toNat_add, Int.ModEq]
        omega
  · rw [Function.update_of_ne (Ne.symm own), if_neg own]
    simp

/-- A sum in which one term changes. -/
theorem sum_change {s : Finset ℕ} (before after : ℕ → ℤ) {id : ℕ} (inside : id ∈ s)
    (same : ∀ other ∈ s, other ≠ id → after other = before other) :
    ∑ other ∈ s, after other = ∑ other ∈ s, before other + (after id - before id) := by
  rw [← sub_eq_iff_eq_add', ← sum_sub_distrib, sum_eq_single_of_mem id inside]
  intro other member different
  rw [same other member different, sub_self]

/-! ## One call -/

variable {p : Property} {handled : ℕ} {this middle after : ModFlow}

/-- The tick changes no counter. -/
theorem Ticked.traffic (ticked : Ticked p this middle) (id : ℕ) (dir : FlowDir) :
    middle.traffic id dir = this.traffic id dir := by
  unfold ModFlow.traffic
  rw [ticked.built, ticked.flow]
  split
  · split
    · cases dir <;> rfl
    · rfl
  · rfl

theorem Balanced.tick (balanced : Balanced handled this) (ticked : Ticked p this middle) :
    Balanced handled middle := by
  have same : ∀ id, (middle.flow id).hvHex = (this.flow id).hvHex ∧
      (middle.flow id).lSize = (this.flow id).lSize ∧
      (middle.flow id).rSize = (this.flow id).rSize ∧
      (middle.flow id).lPkt = (this.flow id).lPkt ∧
      (middle.flow id).rPkt = (this.flow id).rPkt := by
    intro id
    rw [ticked.flow]
    split
    · exact ⟨rfl, rfl, rfl, rfl, rfl⟩
    · exact ⟨rfl, rfl, rfl, rfl, rfl⟩
  refine ⟨fun hex => ?_, ?_⟩
  · have before := balanced.bytes hex
    unfold bytesUnder at before ⊢
    simp only [ticked.updateMap, ticked.built, same]
    exact before
  · have before := balanced.packets
    unfold packetsCounted at before ⊢
    simp only [ticked.built, same]
    exact before

/-- Counting a packet in a flow adds its bytes under the hash string of the flow. -/
theorem Balanced.count (balanced : Balanced handled this) (directed : p.dir ≠ .nil) {id : ℕ}
    (known : id < this.flowTable.built) : Balanced (handled + 1) (this.counted p id) := by
  have others : ∀ other, other ≠ id → (this.counted p id).flow other = this.flow other :=
    fun other different => by rw [counted_flow, if_neg different]
  have self : (this.counted p id).flow id = (this.flow id).update p := by
    rw [counted_flow, if_pos rfl]
  have named : ∀ other, ((this.counted p id).flow other).hvHex = (this.flow other).hvHex := by
    intro other
    by_cases own : other = id
    · rw [own, self, Flow.hvHex_update]
    · rw [others other own]
  obtain ⟨size, pkt⟩ := sums_update directed (this.flow id)
  rw [← self] at size pkt
  refine ⟨fun hex => ?_, ?_⟩
  · have before := balanced.bytes hex
    have map := addBytes_modEq this.updateMap (this.flow id).hvHex hex p.len
    unfold bytesUnder at before ⊢
    simp only [named]
    change ((addBytes this.updateMap (this.flow id).hvHex p.len hex).getD 0).toNat ≡
      ∑ other ∈ (range this.flowTable.built).filter fun other => (this.flow other).hvHex = hex, _
        [ZMOD _]
    by_cases own : (this.flow id).hvHex = hex
    · have inside : id ∈ (range this.flowTable.built).filter fun other =>
          (this.flow other).hvHex = hex := mem_filter.mpr ⟨mem_range.mpr known, own⟩
      rw [sum_change (fun other => (this.flow other).lSize.toInt + (this.flow other).rSize.toInt) _
        inside fun other _ different => by rw [others _ different]]
      rw [if_pos own] at map
      have grown := size.sub_right ((this.flow id).lSize.toInt + (this.flow id).rSize.toInt)
      rw [add_sub_cancel_left] at grown
      exact map.trans (before.add grown.symm)
    · rw [if_neg own, Nat.cast_zero, add_zero] at map
      rw [sum_congr rfl fun other member => ?_]
      · exact map.trans before
      · have different : other ≠ id := fun same => own (same ▸ (mem_filter.mp member).2)
        rw [others other different]
  · have before := balanced.packets
    unfold packetsCounted at before ⊢
    change _ ≡ ∑ other ∈ range this.flowTable.built, _ [ZMOD _]
    rw [sum_change (fun other => (this.flow other).lPkt.toInt + (this.flow other).rPkt.toInt) _
      (mem_range.mpr known) fun other _ different => by rw [others _ different]]
    have grown := pkt.sub_right ((this.flow id).lPkt.toInt + (this.flow id).rPkt.toInt)
    rw [add_sub_cancel_left] at grown
    rw [Nat.cast_succ]
    exact before.add grown.symm

/-- A new flow has counted nothing yet. -/
theorem Balanced.add (balanced : Balanced handled this) (p : Property) (src dst : String) :
    Balanced handled (this.added (Flow.new p src dst)) := by
  have earlier : ∀ id ∈ range this.flowTable.built,
      (this.added (Flow.new p src dst)).flow id = this.flow id :=
    fun id member => added_flow_of_lt (mem_range.mp member) _
  have zero : ((Flow.new p src dst).lSize.toInt + (Flow.new p src dst).rSize.toInt = 0) ∧
      (Flow.new p src dst).lPkt.toInt + (Flow.new p src dst).rPkt.toInt = 0 := ⟨rfl, rfl⟩
  refine ⟨fun hex => ?_, ?_⟩
  · have before := balanced.bytes hex
    unfold bytesUnder at before ⊢
    rw [sum_filter] at before ⊢
    change _ ≡ ∑ id ∈ range (this.flowTable.built + 1), _ [ZMOD _]
    rw [sum_range_succ, added_flow_self, zero.1, ite_self, add_zero,
      sum_congr rfl fun id member => by rw [earlier id member]]
    exact before
  · have before := balanced.packets
    unfold packetsCounted at before ⊢
    change _ ≡ ∑ id ∈ range (this.flowTable.built + 1), _ [ZMOD _]
    rw [sum_range_succ, added_flow_self, zero.2, add_zero,
      sum_congr rfl fun id member => by rw [earlier id member]]
    exact before

/-- Counting a packet in a flow changes one counter of packets and one of bytes. -/
theorem counted_traffic {id : ℕ} (known : id < this.flowTable.built) (other : ℕ) {dir : FlowDir}
    (some : dir ≠ .nil) : (this.counted p id).traffic other dir =
      if other = id ∧ p.dir = dir then
        this.traffic other dir + (1, Int32.ofNat p.len.toNat)
      else this.traffic other dir := by
  unfold traffic
  rw [counted_flow]
  change (if other < this.flowTable.built then _ else _) = _
  by_cases own : other = id
  · subst own
    simp only [known, if_true, true_and]
    rw [Flow.pkt_update some, Flow.size_update some]
    by_cases same : p.dir = dir
    · simp only [same, if_true]
      rfl
    · simp only [same, if_false]
      rw [show Int32.ofNat 0 = 0 from rfl, Int32.add_zero, Int32.add_zero]
  · simp only [own, if_false, false_and]

/-- Building a flow changes no counter: those of a new flow are zero. -/
theorem added_traffic (p : Property) (src dst : String) (this : ModFlow) (id : ℕ)
    {dir : FlowDir} : (this.added (Flow.new p src dst)).traffic id dir = this.traffic id dir := by
  unfold traffic
  change (if id < this.flowTable.built + 1 then _ else _) = _
  by_cases earlier : id < this.flowTable.built
  · rw [if_pos (Nat.lt_succ_of_lt earlier), if_pos earlier, added_flow_of_lt earlier]
  · rw [if_neg earlier]
    by_cases new : id = this.flowTable.built
    · rw [if_pos (new ▸ Nat.lt_succ_self _), new, added_flow_self]
      cases dir <;> rfl
    · rw [if_neg (by omega)]

/-- **One call keeps the accounts**, and counts its packet once. -/
theorem Balanced.step {dns : ModDns} {eid : EvId} {events : List FlowEvent}
    (balanced : Balanced handled this) (kept : this.Kept) (directed : p.dir ≠ .nil)
    (ticked : Ticked p this middle) (ip : eid = middle.evIpv4 ∨ eid = middle.evIpv6)
    (how : Handled dns eid p middle events after) :
    Balanced (handled + 1) after ∧ CountsOnce p this after := by
  have between := balanced.tick ticked
  have afterKept := how.kept (ticked.kept kept)
  cases how with
  | skipped other => exact (other ip).elim
  | known id slot _ live same =>
      have known := (ticked.kept kept).wf.live_lt live
      refine ⟨between.count directed known, id, ?_, fun other dir some => ?_⟩
      · apply (@Kept.get_iff _ afterKept (keyOf p) _).mpr
        rw [counted_flowKey]
        exact ⟨⟨slot, live⟩, same⟩
      · rw [counted_traffic known other some, ticked.traffic]
  | fresh src dst =>
      have known : middle.flowTable.built < (middle.added (Flow.new p src dst)).flowTable.built :=
        Nat.lt_succ_self _
      refine ⟨(between.add p src dst).count directed known, middle.flowTable.built, ?_,
        fun other dir some => ?_⟩
      · apply (@Kept.get_iff _ afterKept (keyOf p) _).mpr
        rw [counted_flowKey, added_flow_self]
        exact ⟨⟨_, (added_live ticked.size _ _ _).mpr (.inr ⟨rfl, rfl⟩)⟩, rfl⟩
      · rw [counted_traffic known other some, added_traffic, ticked.traffic]

/-! ## Runs -/

/-- Every flow built so far has a direction, so no eviction aborts. -/
def Directed (this : ModFlow) : Prop :=
  ∀ id < this.flowTable.built, (this.flow id).initDir ≠ .nil

theorem Directed.step {dns : ModDns} {eid : EvId} {events : List FlowEvent}
    (flows : this.Directed) (directed : p.dir ≠ .nil) (ticked : Ticked p this middle)
    (how : Handled dns eid p middle events after) : after.Directed := by
  have between : middle.Directed := by
    intro id known
    rw [ticked.initDir]
    exact flows id (ticked.built ▸ known)
  have count : ∀ {state : ModFlow} (id : ℕ), state.Directed → (state.counted p id).Directed := by
    intro state id all other known
    rw [counted_flow]
    split
    · rename_i own
      rw [Flow.initDir_update, ← own]
      exact all other known
    · exact all other known
  cases how with
  | skipped => exact between
  | known id => exact count id between
  | fresh src dst =>
      apply count
      intro id known
      rcases Nat.lt_succ_iff_lt_or_eq.mp known with earlier | rfl
      · rw [added_flow_of_lt earlier]
        exact between id earlier
      · rw [added_flow_self]
        exact directed

/-- The input is a packet of an IP event with a direction. -/
def Carried (evIpv4 evIpv6 : EvId) (input : Input) : Prop :=
  (input.eid = evIpv4 ∨ input.eid = evIpv6) ∧ input.p.dir ≠ .nil

instance (evIpv4 evIpv6 : EvId) : DecidablePred (Carried evIpv4 evIpv6) :=
  fun _ => instDecidableAnd

/-- A call for such a packet returns, and keeps the accounts. -/
theorem Balanced.recv {input : Input} (balanced : Balanced handled this) (kept : this.Kept)
    (flows : this.Directed) (carried : Carried this.evIpv4 this.evIpv6 input) :
    ∃ after, (this.recv input.dns input.eid input.p).result = some after ∧ after.Directed ∧
      Balanced (handled + 1) after ∧ CountsOnce input.p this after := by
  obtain ⟨ip, directed⟩ := carried
  rcases recv_spec input.dns input.eid input.p kept with ⟨⟨id, due, stuck⟩, -⟩ |
    ⟨-, middle, events, after, ticked, how, same⟩
  · obtain ⟨slot, live⟩ := expired_live kept due
    exact (flows id (kept.wf.live_lt live) (Flow.buildMessage_eq_none.mp stuck.2)).elim
  · rw [← ticked.evIpv4, ← ticked.evIpv6] at ip
    rw [same]
    exact ⟨after, rfl, flows.step directed ticked how, balanced.step kept directed ticked ip how⟩

/-- A run of such packets returns with its accounts kept. -/
theorem Balanced.run (evIpv4 evIpv6 : EvId) (inputs : List Input)
    (carried : ∀ input ∈ inputs, Carried evIpv4 evIpv6 input) :
    ∃ this, ((ModFlow.new evIpv4 evIpv6).run inputs).result = some this ∧ this.Directed ∧
      Balanced inputs.length this := by
  induction inputs using List.reverseRecOn with
  | nil =>
      have map : ∀ hex, (ModFlow.new evIpv4 evIpv6).updateMap hex = none := fun _ => rfl
      refine ⟨_, rfl, nofun, fun hex => ?_, rfl⟩
      rw [map]
      rfl
  | append_singleton calls input ih =>
      obtain ⟨this, reached, flows, balanced⟩ :=
        ih fun other member => carried other (List.mem_append_left _ member)
      have ready := carried input (List.mem_append_right _ List.mem_cons_self)
      obtain ⟨four, six⟩ := bound_run (Kept.new evIpv4 evIpv6) reached
      change this.evIpv4 = evIpv4 at four
      change this.evIpv6 = evIpv6 at six
      subst four six
      obtain ⟨after, returned, flows, balanced, -⟩ := balanced.recv (Kept.run reached) flows ready
      refine ⟨after, Exec.run_snoc_result.mpr ⟨this, reached, returned⟩, flows, ?_⟩
      rw [List.length_append]
      exact balanced

/-- **Traffic accounting is conserved.** After any run of IP packets with a direction
the bytes of `update_map_` and the number of packets handled agree, in 32 bits, with
the counters of all the flows that were ever built; and a call with one more such
packet counts it once. -/
theorem traffic_conserved (evIpv4 evIpv6 : EvId) (inputs : List Input)
    (carried : ∀ input ∈ inputs, Carried evIpv4 evIpv6 input) :
    ∃ this, ((ModFlow.new evIpv4 evIpv6).run inputs).result = some this ∧
      Balanced inputs.length this ∧
      ∀ input, Carried evIpv4 evIpv6 input →
        ∃ after, (this.recv input.dns input.eid input.p).result = some after ∧
          CountsOnce input.p this after := by
  obtain ⟨this, reached, flows, balanced⟩ := Balanced.run evIpv4 evIpv6 inputs carried
  refine ⟨this, reached, balanced, fun input ready => ?_⟩
  obtain ⟨four, six⟩ := bound_run (Kept.new evIpv4 evIpv6) reached
  change this.evIpv4 = evIpv4 at four
  change this.evIpv6 = evIpv6 at six
  subst four six
  obtain ⟨after, returned, -, -, once⟩ := balanced.recv (Kept.run reached) flows ready
  exact ⟨after, returned, once⟩

/-- Two packets of one flow, the second of them an hour late, and one of another with
the same hash string. -/
def sharedHash : List Input := [.sample 3605 1, .sample 5 1, .sample 3605 2]

theorem traffic_conserved_sample :
    ∃ this, ((ModFlow.new 4 6).run sharedHash).result = some this ∧ Balanced 3 this := by
  obtain ⟨this, reached, balanced, -⟩ := traffic_conserved 4 6 sharedHash (by decide)
  exact ⟨this, reached, balanced⟩

end ModFlow

end Devourer
