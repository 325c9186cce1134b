import ComputerNetworks.Lib.Flood
import ComputerNetworks.Routing.Forwarding
import Mathlib.Algebra.BigOperators.Group.Finset.Piecewise

/-!
# The flood of DV packets

In a static network a router answers a pair of a DV packet with a pair about the same
router that costs more, if it answers at all: a route through the sender costs the link on
top, and a direct link is taken instead only where it costs the same. As costs are bounded,
the DV packets under way are used up after finitely many deliveries, unless routers add to
them on their own, by an update alarm or on the first PONG of a neighbour. What is left is
a network with exact routes.
-/

namespace ComputerNetworks.Routing

open Lib Lib.DistanceVector

/-- The costs in a list of pairs. -/
def costs (pairs : List (ℕ × ℕ)) : List ℕ := pairs.map Prod.snd

/-- The costs of adverts, as a DV packet carries them. -/
def pushedCosts (adverts : List Advert) : List ℕ := adverts.map fun advert => advert.pair.2

theorem costs_pairs (adverts : List Advert) : costs (adverts.map Advert.pair) = pushedCosts adverts :=
  List.map_map

namespace Flow

variable {links : Links} {f : Flow} {r n : ℕ}

/-- The cost of a route fits a pair. -/
theorem pushedCosts_route {d c : ℕ} (small : c < infinityCost) :
    pushedCosts [Advert.route d c] = [c] := by
  dsimp only [infinityCost] at small
  rw [pushedCosts, List.map_singleton, Advert.pair, Nat.mod_eq_of_lt (by omega)]

/-- A pair is answered by one that costs more, if at all. -/
theorem Inv.recvPair_answers (h : f.Inv links)
    (small : links.graph.total links.nodes.toFinset < infinityCost) {pair : ℕ × ℕ}
    {rest : List (ℕ × ℕ)} (heard : f.heard r n = true) (head : f.flight n r = pair :: rest)
    (now : ℕ) : Flood.Answers
      (pushedCosts (Router.recvPair now n (links.rtt r n) ⟨f.routers r, []⟩ pair).newPacket)
      (costs [pair]) := by
  obtain ⟨d, c⟩ := pair
  have edge := h.weight_of_heard heard
  have positive := links.graph.positive r n _ edge
  have arrived : c < infinityCost := h.flight_lt small (head ▸ List.mem_cons_self)
  have link := weight_lt small edge
  have sum : (c + links.rtt r n) % 2 ^ 32 = c + links.rtt r n := by
    dsimp only [infinityCost] at *
    omega
  have member : c ∈ (f.view d).chan n r := by
    simp [view, head, costsOf_cons]
  -- the router behind the operation is one of a network in order, where costs fit a pair
  obtain ⟨after, -, -⟩ := h.recvPair small heard head now rfl
  have fits : ∀ {cell : DVCell}, (Router.recvPair now n (links.rtt r n) ⟨f.routers r, []⟩
      (d, c)).router.dvMap[d]? = some cell → cell.cost < infinityCost := fun found =>
    after.cost_lt (r := r) small (by simpa [finish] using found)
  generalize outcome : Router.recvPair now n (links.rtt r n) ⟨f.routers r, []⟩ (d, c) = u at fits ⊢
  have result := recvPair_result now n (links.rtt r n) ⟨f.routers r, []⟩ d c
  rw [outcome] at result
  have louder : ∀ cell : DVCell, c < cell.cost → cell.cost < infinityCost →
      Flood.Answers (pushedCosts [Advert.route d cell.cost]) (costs [(d, c)]) := by
    intro cell less bound
    rw [pushedCosts_route bound]
    exact .cons less .nil
  have installed : ∀ cell : DVCell, ((f.routers r).install d cell).dvMap[d]? = some cell :=
    fun cell => (Router.install_dvMap ..).trans (if_pos rfl)
  cases result with
  | ignored => exact .nil
  | added _ absent other =>
    exact louder ⟨n, _, now⟩ (by dsimp only; omega) (fits (installed _))
  | @adopted cell _ found better =>
    exact louder ⟨n, _, now⟩ (by dsimp only; omega) (fits (installed _))
  | @direct cell direct found via near worse =>
    obtain ⟨heard', -, cost⟩ := ((h.wired r).known d direct).mp near
    have entry := view_entry_of_found found
    -- the route cost no less than the pair offers, and no more than the direct link
    have offered : c + links.rtt r n ≤ cell.cost :=
      (h.routes d).sound.advert_le member (by rw [entry, via]; rfl) edge
    obtain ⟨hop, k, entry', le⟩ := (h.routes d).near r heard' _ (h.weight_of_heard heard')
    rw [entry, Option.some.injEq] at entry'
    have same : cell.cost = k := congrArg Prod.snd entry'
    exact louder ⟨d, direct.cost, now⟩ (by dsimp only; omega) (fits (installed _))
  -- the last two answer an infinite cost, and every cost under way is finite
  | withdrawn poison => omega
  | told poison => omega

/-- The answer to a DV packet answers some of its pairs. -/
theorem Inv.recvPairs_answers (h : f.Inv links)
    (small : links.graph.total links.nodes.toFinset < infinityCost) {pairs rest : List (ℕ × ℕ)}
    (heard : f.heard r n = true) (head : f.flight n r = pairs ++ rest) (now : ℕ) {u : Update}
    (outcome : pairs.foldl (Router.recvPair now n (links.rtt r n)) ⟨f.routers r, []⟩ = u) :
    Flood.Answers (pushedCosts u.newPacket) (costs pairs) := by
  induction pairs generalizing f u with
  | nil =>
    subst outcome
    exact .nil
  | cons pair pairs ih =>
    have here := h.recvPair_answers small heard head now
    generalize first : Router.recvPair now n (links.rtt r n) ⟨f.routers r, []⟩ pair = v at here
    obtain ⟨inv, -, -⟩ := h.recvPair small heard head now first
    generalize later : pairs.foldl (Router.recvPair now n (links.rtt r n)) ⟨v.router, []⟩ = w
    have other : n ≠ r := (WeightedGraph.ne_of_weight (h.weight_of_heard heard)).symm
    have head' : ((f.pop n r 1).finish r v).flight n r = pairs ++ rest := by
      simp [finish, pop, other, head]
    have router : ((f.pop n r 1).finish r v).routers r = v.router := by simp [finish]
    have rest_ := ih inv heard head' (router.symm ▸ later)
    rw [← outcome, List.foldl_cons, first, recvPairs_append, later, pushedCosts, List.map_append]
    exact here.append rest_

end Flow

namespace StaticNetwork

variable {links : Links} {net net' : StaticNetwork} {r n : ℕ}

/-- The weight of the DV packets under way on a channel. -/
def channelWeight (links : Links) (packets : List DVPacket) : ℕ :=
  (packets.map fun packet => Flood.packetWeight links.nodes.length
    (links.graph.total links.nodes.toFinset) (costs packet.received)).sum

/-- The weight of all DV packets under way. -/
def potential (links : Links) (net : StaticNetwork) : ℕ :=
  ∑ a ∈ links.nodes.toFinset, ∑ b ∈ links.nodes.toFinset, channelWeight links (net.chan a b)

theorem channelWeight_append (links : Links) (packets packets' : List DVPacket) :
    channelWeight links (packets ++ packets') =
      channelWeight links packets + channelWeight links packets' := by
  rw [channelWeight, List.map_append, List.sum_append, channelWeight, channelWeight]

/-- What an operation sends to a router weighs no more than its answer. -/
theorem Wired.channelWeight_finish {heard : ℕ → Bool} {u : Update}
    (h : Wired links r heard u.router) (fits : u.newPacket.length ≤ 16000) (b : ℕ) :
    channelWeight links (dvTo links r b u.finish.2) ≤
      if pushedCosts u.newPacket = [] then 0
      else Flood.packetWeight links.nodes.length (links.graph.total links.nodes.toFinset)
        (pushedCosts u.newPacket) := by
  unfold Update.finish
  by_cases empty : u.newPacket = []
  · simp [empty, dvTo, channelWeight]
  · obtain ⟨i, sent⟩ := h.dvTo_sendDVUpdate u.newPacket b
    have received : costs (u.router.dvPacket u.newPacket i).received = pushedCosts u.newPacket := by
      rw [Router.received_dvPacket u.router (by omega), costs_pairs]
    have loud : pushedCosts u.newPacket ≠ [] := fun none_ => empty (List.map_eq_nil_iff.mp none_)
    dsimp only
    rw [if_neg empty, if_neg loud, sent]
    split_ifs
    · rw [channelWeight, List.map_singleton, List.sum_singleton, received]
    · exact Nat.zero_le _

/-- Taking a packet out of a channel takes its weight off. -/
theorem potential_drop (inside : n ∈ links.nodes.toFinset) (inside' : r ∈ links.nodes.toFinset)
    {packet : DVPacket} {rest : List DVPacket} (head : net.chan n r = packet :: rest) :
    (net.drop n r).potential links + Flood.packetWeight links.nodes.length
      (links.graph.total links.nodes.toFinset) (costs packet.received) = net.potential links := by
  have split : ∀ a b, channelWeight links (net.chan a b) =
      channelWeight links ((net.drop n r).chan a b) +
        if n = a then if r = b then Flood.packetWeight links.nodes.length
          (links.graph.total links.nodes.toFinset) (costs packet.received) else 0 else 0 := by
    intro a b
    by_cases sender : n = a
    · by_cases receiver : r = b
      · subst sender receiver
        simp [drop, head, channelWeight, Nat.add_comm]
      · simp [drop, sender, receiver, Ne.symm receiver]
    · simp [drop, sender, Ne.symm sender]
  simp only [potential, split, Finset.sum_add_distrib]
  congr 1
  rw [Finset.sum_eq_single_of_mem n inside, Finset.sum_eq_single_of_mem r inside', if_pos rfl,
    if_pos rfl]
  · exact fun b _ other => by rw [if_pos rfl, if_neg other.symm]
  · exact fun a _ other => Finset.sum_eq_zero fun b _ => if_neg other.symm

/-- A call adds at most one answer for each router. -/
theorem potential_call_le (links : Links) (net : StaticNetwork) {r : ℕ} (event : Event) {bound : ℕ}
    (sent : ∀ b, channelWeight links (dvTo links r b ((net.routers r).handle event).2) ≤ bound) :
    (net.call links r event).potential links ≤ net.potential links + links.nodes.length * bound := by
  have split : ∀ a b, channelWeight links ((net.call links r event).chan a b) ≤
      channelWeight links (net.chan a b) + if r = a then bound else 0 := by
    intro a b
    by_cases sender : r = a
    · subst sender
      simp only [call, if_pos, channelWeight_append]
      exact Nat.add_le_add_left (sent b) _
    · simp [call, sender, Ne.symm sender]
  calc (net.call links r event).potential links
      ≤ ∑ a ∈ links.nodes.toFinset, ∑ b ∈ links.nodes.toFinset,
          (channelWeight links (net.chan a b) + if r = a then bound else 0) :=
        Finset.sum_le_sum fun a _ => Finset.sum_le_sum fun b _ => split a b
    _ = net.potential links + ∑ a ∈ links.nodes.toFinset, ∑ b ∈ links.nodes.toFinset,
          if r = a then bound else 0 := by
        simp only [Finset.sum_add_distrib, potential]
    _ ≤ net.potential links + links.nodes.length * bound := by
        refine Nat.add_le_add_left ?_ _
        calc ∑ a ∈ links.nodes.toFinset, ∑ b ∈ links.nodes.toFinset, (if r = a then bound else 0)
            = ∑ b ∈ links.nodes.toFinset, if r ∈ links.nodes.toFinset then bound else 0 := by
              rw [Finset.sum_comm]
              exact Finset.sum_congr rfl fun b _ => Finset.sum_ite_eq ..
          _ ≤ ∑ b ∈ links.nodes.toFinset, bound :=
              Finset.sum_le_sum fun b _ => by split_ifs <;> omega
          _ ≤ links.nodes.length * bound := by
              rw [Finset.sum_const_nat fun _ _ => rfl]
              exact Nat.mul_le_mul_right bound (List.toFinset_card_le links.nodes)

/-- A delivery lowers the weight of what is under way, and whoever was heard still is. -/
theorem Inv.potential_lt (h : net.Inv links)
    (small : links.graph.total links.nodes.toFinset < infinityCost) {i now junk : ℕ}
    (next : net.step links (.deliver r i now junk) = some net') :
    net'.potential links < net.potential links ∧ net'.heard = net.heard := by
  simp only [StaticNetwork.step] at next
  cases peer : links.peer r i with
  | none => simp [peer] at next
  | some other =>
    obtain ⟨n, j⟩ := other
    simp only [peer] at next
    cases head : net.chan n r with
    | nil => simp [head] at next
    | cons packet rest =>
      simp only [head, Option.ite_none_right_eq_some, Option.some.injEq] at next
      obtain ⟨heard, rfl⟩ := next
      refine ⟨?_, rfl⟩
      obtain ⟨source, length⟩ := h.packets n r packet (head ▸ List.mem_cons_self)
      have flight : net.flow.flight n r = packet.received ++ rest.flatMap DVPacket.received := by
        rw [show net.flow.flight n r = (net.chan n r).flatMap DVPacket.received from rfl, head]
        rfl
      generalize outcome : (net.routers r).recvDV now i packet junk = u
      have pairs : packet.received.foldl (Router.recvPair now n (links.rtt r n))
          ⟨net.routers r, []⟩ = u := by
        have knows : (net.routers r).Knows packet.source := by
          rw [source]
          exact (h.flow.wired r).knows_iff.mpr heard
        have link : (net.routers r).linkCost n = links.rtt r n := (h.flow.wired r).linkCost heard
        rw [← outcome, Router.recvDV, Router.learnNeighbor_of_knows knows, source, link]
      obtain ⟨inv, -, fits⟩ := h.flow.recvPairs small heard flight now pairs
      have wired : Wired links r ((net.flow.pop n r packet.received.length).heard r) u.router := by
        simpa [Flow.finish] using inv.wired r
      have answers := h.flow.recvPairs_answers small heard flight now pairs
      have low : ∀ c ∈ costs packet.received, c ≤ links.graph.total links.nodes.toFinset := by
        intro c member
        obtain ⟨⟨d, c'⟩, listed, rfl⟩ := List.mem_map.mp member
        refine ((h.flow.routes d).le_total fun _ _ _ => Links.mem_nodes_of_weight).2 n r c' ?_
        refine mem_costsOf.mpr ?_
        rw [flight]
        exact List.mem_append_left _ listed
      have handled : ((net.drop n r).routers r).handle (.recv now i (.dv packet) junk) = u.finish := by
        rw [Router.handle_dv, show (net.drop n r).routers r = net.routers r from rfl, outcome]
      have edge := links.symm r i n j peer
      have taken := potential_drop (List.mem_toFinset.mpr (links.closed n j r i edge))
        (List.mem_toFinset.mpr (links.closed r i n j peer)) head
      have added := potential_call_le links (net.drop n r) (.recv now i (.dv packet) junk) fun b => by
          rw [handled]
          exact wired.channelWeight_finish (Nat.le_trans fits length) b
      have outweighs := answers.packetWeight_lt links.nodes.length low
      omega

end StaticNetwork

/-- The action delivers a DV packet. -/
def StaticAction.isDelivery : StaticAction → Bool
  | .deliver .. => true
  | _ => false

namespace StaticNetwork

variable {links : Links} {net net' : StaticNetwork}

/-- When every neighbour has been heard and nothing can be delivered, nothing is under way. -/
theorem quiet_of_exhausted (heard : ∀ r i n j, links.peer r i = some (n, j) → net.heard r n = true)
    (exhausted : ∀ action : StaticAction, action.isDelivery = true → net.step links action = none) :
    net.Quiet links := by
  refine ⟨fun r i n j peer => ?_, heard⟩
  have stuck := exhausted (.deliver r i 0 0) rfl
  simp only [StaticNetwork.step, peer] at stuck
  cases head : net.chan n r with
  | nil => rfl
  | cons packet rest => simp [head, heard r i n j peer] at stuck

/-- A delivery keeps the network sound, loses weight, and forgets no neighbour. -/
theorem Sound.delivery (h : net.Sound links)
    (small : links.graph.total links.nodes.toFinset < infinityCost) {action : StaticAction}
    (delivery : action.isDelivery = true) (next : net.step links action = some net') :
    net'.Sound links ∧ net'.potential links < net.potential links ∧ net'.heard = net.heard := by
  cases action with
  | deliver r i now junk => exact ⟨h.step small next, h.inv.potential_lt small next⟩
  | pong => cases delivery
  | update => cases delivery

/-- Once every router has handled a PONG over each of its links, the flood of DV packets comes
to an end, in whatever order they are delivered: the deliveries are no more than a bound that
is known beforehand, they can be made until nothing is under way, and then a router has a
route exactly to those it is connected to, at the distance. -/
theorem flood_ends (links : Links) (small : links.graph.total links.nodes.toFinset < infinityCost)
    {net : StaticNetwork} (reach : Reachable (step links) (fun s => s = start links) net)
    (heard : ∀ r i n j, links.peer r i = some (n, j) → net.heard r n = true) :
    (∀ as net', (∀ action ∈ as, action.isDelivery = true) → exec (step links) net as = some net' →
        as.length ≤ net.potential links ∧
          ((∀ action : StaticAction, action.isDelivery = true → net'.step links action = none) →
            ∀ r d c, r ≠ d → ((∃ cell, (net'.routers r).dvMap[d]? = some cell ∧ cell.cost = c) ↔
              links.graph.IsDistance d r c))) ∧
      ∃ as net', (∀ action ∈ as, action.isDelivery = true) ∧ exec (step links) net as = some net' ∧
        ∀ action : StaticAction, action.isDelivery = true → net'.step links action = none := by
  have sound : net.Sound links := reach.invariant (fun s first => first ▸ .start links)
    fun s action t h next => h.step small next
  have lowers : ∀ s action t, s.Sound links ∧ s.heard = net.heard →
      StaticAction.isDelivery action = true → step links s action = some t →
        (t.Sound links ∧ t.heard = net.heard) ∧ t.potential links < s.potential links := by
    intro s action t ⟨h, same⟩ delivery next
    obtain ⟨sound', less, same'⟩ := h.delivery small delivery next
    exact ⟨⟨sound', same'.trans same⟩, less⟩
  refine ⟨fun as net' deliveries run => ?_, exists_exhausted lowers ⟨sound, rfl⟩⟩
  obtain ⟨⟨sound', same⟩, length⟩ := exec_length_le lowers ⟨sound, rfl⟩ deliveries run
  refine ⟨by omega, fun exhausted r d c other => ?_⟩
  have quiet : net'.Quiet links := quiet_of_exhausted (same ▸ heard) exhausted
  constructor
  · rintro ⟨cell, found, rfl⟩
    exact sound'.isDistance quiet found
  · exact sound'.connected quiet other

/-- Routers 1 and 2 hear each other; then the flood between them ends. -/
theorem oneLink_flood_ends : ∃ net as net',
    exec (step Links.oneLink) (start Links.oneLink) [.pong 1 0 10 0, .pong 2 0 12 2] = some net ∧
      exec (step Links.oneLink) net as = some net' ∧ as.length ≤ net.potential Links.oneLink ∧
        ∀ c, Links.oneLink.graph.IsDistance 2 1 c →
          ∃ cell, (net'.routers 1).dvMap[(2 : ℕ)]? = some cell ∧ cell.cost = c := by
  obtain ⟨net, first⟩ : ∃ net, exec (step Links.oneLink) (start Links.oneLink)
      [.pong 1 0 10 0, .pong 2 0 12 2] = some net := ⟨_, rfl⟩
  have check : (exec (step Links.oneLink) (start Links.oneLink) [.pong 1 0 10 0, .pong 2 0 12 2]).map
      (fun net => (net.heard 1 2, net.heard 2 1)) = some (true, true) := by decide +kernel
  rw [first, Option.map_some, Option.some.injEq] at check
  have heard : ∀ r i n j, Links.oneLink.peer r i = some (n, j) → net.heard r n = true := by
    intro r i n j peer
    obtain ⟨-, -, ⟨rfl, rfl⟩ | ⟨rfl, rfl⟩⟩ := Links.oneLink_peer peer
    · exact congrArg Prod.fst check
    · exact congrArg Prod.snd check
  obtain ⟨settles, as, net', deliveries, run, exhausted⟩ :=
    flood_ends Links.oneLink (by decide +kernel) ⟨_, _, rfl, first⟩ heard
  obtain ⟨short, exact_⟩ := settles as net' deliveries run
  exact ⟨net, as, net', first, run, short, fun c => (exact_ exhausted 1 2 c (by decide)).mpr⟩

end StaticNetwork

end ComputerNetworks.Routing
