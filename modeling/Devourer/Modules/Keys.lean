import Devourer.Modules.Dns.Origin
import Devourer.Modules.Flow.Step

/-! # One live node for each key

Both modules look a key up before they put an object with it, under the hash value that
the object will answer to. Their tables, which take whatever they are given, therefore
hold one live node for each transaction, address and flow, and a lookup for the key of
a node finds this node (`one_node_per_key`).
-/

namespace Devourer

/-- **One live node for each key.** After every run of either module that returns, no two
live queries have the same transaction, no two live records the same address and no two
live flows the same hash value and session label; and the lookup for the key of a live
node, under the hash value computed from this key, finds the node. -/
theorem one_node_per_key (evIpv4 evIpv6 : EvId) (dnsCalls : List ModDns.Input)
    (flowCalls : List ModFlow.Input) (dns : ModDns) (flow : ModFlow)
    (dnsReached : (ModDns.new.run dnsCalls).result = some dns)
    (flowReached : ((ModFlow.new evIpv4 evIpv6).run flowCalls).result = some flow) :
    (dns.queryTable.Keyed Query.key ∧ ∀ id slot, dns.queryTable.Live id slot →
      dns.queryTable.get Query.virt (dns.queryAt id).key.hash (dns.queryAt id).key = some id) ∧
    (dns.addrTable.Keyed ARecord.key ∧ ∀ id slot, dns.addrTable.Live id slot →
      ∃ hv, ARecord.calcHash (dns.addrTable.object id).key = some hv ∧
        dns.addrTable.get ARecord.virt hv (dns.addrTable.object id).key = some id) ∧
    (flow.flowTable.Keyed Flow.flowKey ∧ ∀ id slot, flow.flowTable.Live id slot →
      flow.flowTable.get Flow.virt (flow.flow id).hv (flow.flow id).key = some id) := by
  have kept := ModDns.Kept.run dnsReached
  have keyed := ModDns.Keyed.run dnsReached
  have flows := ModFlow.Kept.run flowReached
  refine ⟨⟨keyed.queries, fun id slot => keyed.get_query⟩,
    ⟨keyed.addrs, fun id slot => keyed.get_addr kept⟩,
    fun id slot other slot' => flows.keyed id other slot slot', fun id slot live => ?_⟩
  exact (@ModFlow.Kept.get_iff _ flows (flow.flow id).flowKey _).mpr ⟨⟨slot, live⟩, rfl⟩

/-- Two transactions, the first asked twice, whose responses have one address. -/
def askedTwice : List ModDns.Input :=
  [⟨ModDns.blank, ModDns.sampleQuery 1⟩, ⟨ModDns.blank, ModDns.sampleReply 2⟩,
    ⟨ModDns.blank, ModDns.sampleQuery 3⟩,
    ⟨ModDns.blank, { ModDns.sampleQuery 4 with dnsTxId := 7 }⟩,
    ⟨ModDns.blank, { ModDns.sampleReply 5 with dnsTxId := 7 }⟩]

/-- Two flows, the first of which is put again when it expires. -/
def putAgain : List ModFlow.Input := [.sample 1 1, .sample 2 1, .sample 3 2, .sample 602 2]

/-- Each node is found under its key, also the one of a repeated key and the one put again. -/
theorem one_node_per_key_sample : ∃ dns flow,
    (ModDns.new.run askedTwice).result = some dns ∧
    ((ModFlow.new 4 6).run putAgain).result = some flow ∧
    dns.queryTable.table.live = [(1, 123), (0, 120)] ∧
    (∀ id slot, dns.queryTable.Live id slot →
      dns.queryTable.get Query.virt (dns.queryAt id).key.hash (dns.queryAt id).key = some id) ∧
    dns.addrTable.table.live = [(0, 601)] ∧
    (∃ hv, dns.addrTable.get ARecord.virt hv (dns.addrTable.object 0).key = some 0) ∧
    flow.flowTable.table.live = [(0, 602), (1, 602)] ∧
    flow.flowTable.get Flow.virt (flow.flow 0).hv (flow.flow 0).key = some 0 ∧
    flow.flowTable.get Flow.virt (flow.flow 1).hv (flow.flow 1).key = some 1 := by
  have dnsComputed : (ModDns.new.run askedTwice).result.map (fun this =>
      (this.queryTable.table.live, this.addrTable.table.live)) =
      some ([(1, 123), (0, 120)], [(0, 601)]) := by
    decide +kernel
  have flowComputed : ((ModFlow.new 4 6).run putAgain).result.map (fun this =>
      this.flowTable.table.live) = some [(0, 602), (1, 602)] := by
    decide +kernel
  obtain ⟨dns, dnsReached, dnsLive⟩ := Option.map_eq_some_iff.mp dnsComputed
  obtain ⟨flow, flowReached, flowLive⟩ := Option.map_eq_some_iff.mp flowComputed
  obtain ⟨queryLive, addrLive⟩ := Prod.mk.inj dnsLive
  have record : dns.addrTable.Live 0 601 := by
    rw [Pool.Live, addrLive]
    exact List.mem_cons_self
  have again : flow.flowTable.Live 0 602 := by
    rw [Pool.Live, flowLive]
    exact List.mem_cons_self
  have other : flow.flowTable.Live 1 602 := by
    rw [Pool.Live, flowLive]
    exact List.mem_cons_of_mem _ List.mem_cons_self
  obtain ⟨⟨-, queries⟩, ⟨-, addrs⟩, -, flows⟩ :=
    one_node_per_key 4 6 _ _ dns flow dnsReached flowReached
  obtain ⟨hv, -, found⟩ := addrs 0 601 record
  exact ⟨dns, flow, dnsReached, flowReached, queryLive, queries, addrLive, ⟨hv, found⟩, flowLive,
    flows 0 602 again, flows 1 602 other⟩

end Devourer
