import ComputerNetworks.Routing.Entries
import ComputerNetworks.Routing.Links
import Mathlib.Logic.Relation

/-!
# Stable tables are shortest-path tables

A global state in which no full table of a neighbour changes a cost or a next hop. As
routers keep no vectors of their neighbours, what a neighbour's table must look like is
read off what its delivery does. A route whose next hop is not even a neighbour is
supported by nothing and stays; all others are shortest.
-/

namespace ComputerNetworks.Routing

open Lib

/-- Every router knows its links, and the tables of its neighbours are no news to it. -/
structure Stable (links : Links) (routers : ℕ → Router) : Prop where
  routerId : ∀ r ∈ links.nodes, (routers r).routerId = r
  neighbors : ∀ r ∈ links.nodes, ∀ (n : ℕ) cell, (routers r).directNeighbors[n]? = some cell ↔
    (∃ j, links.peer r cell.port = some (n, j)) ∧ cell.cost = links.rtt r n
  near : ∀ r ∈ links.nodes, ∀ (n : ℕ) direct, (routers r).directNeighbors[n]? = some direct →
    ∃ cell, (routers r).dvMap[n]? = some cell ∧ cell.cost ≤ direct.cost
  direct : ∀ r ∈ links.nodes, ∀ (d : ℕ) cell, (routers r).dvMap[d]? = some cell →
    cell.nextHop = d → (routers r).directNeighbors[d]?.map NNCell.cost = some cell.cost
  bounded : ∀ r ∈ links.nodes, ∀ (d : ℕ) cell, (routers r).dvMap[d]? = some cell →
    ∀ a i b j, links.peer a i = some (b, j) → cell.cost + links.rtt a b < infinityCost
  self : ∀ r ∈ links.nodes, (routers r).dvMap[r]? = none
  forwarding : ∀ r ∈ links.nodes, ∀ d : ℕ,
    (routers r).forwardingTable[d]? = (routers r).dvMap[d]?.map DVCell.nextHop
  stable : ∀ r i n j, links.peer r i = some (n, j) → ∀ now junk (d : ℕ),
    ((routers r).recvDV now i ((routers n).dvPacket (routers n).fullTable j)
      junk).router.dvMap[d]?.map DVCell.route = (routers r).dvMap[d]?.map DVCell.route

/-- A full table fits a packet, and every route goes through a neighbour. -/
structure RoutesLinked (links : Links) (routers : ℕ → Router) : Prop where
  fits : ∀ r ∈ links.nodes, (routers r).fullTable.length ≤ 16381
  neighbor : ∀ r ∈ links.nodes, ∀ (d : ℕ) cell, (routers r).dvMap[d]? = some cell →
    (routers r).Knows cell.nextHop

/-- What a router thinks a destination costs; nothing is nearer than itself. -/
def costTo (routers : ℕ → Router) (d v : ℕ) : Option ℕ :=
  if v = d then some 0 else (routers v).dvMap[d]?.map DVCell.cost

/-- A data packet for `d` goes from `u` to `v`, and its cost decreases. -/
def Forwards (links : Links) (routers : ℕ → Router) (d u v : ℕ) : Prop :=
  links.nextRouter (routers u) d = some v ∧
    ∃ a b, costTo routers d u = some a ∧ costTo routers d v = some b ∧ b < a

namespace Stable

variable {links : Links} {routers : ℕ → Router} {r n d i j : ℕ}

theorem directNeighbor (h : Stable links routers) (peer : links.peer r i = some (n, j)) :
    (routers r).directNeighbors[n]? = some ⟨links.rtt r n, i⟩ :=
  (h.neighbors r (links.closed r i n j peer) n _).mpr ⟨⟨j, peer⟩, rfl⟩

/-- What a full table does to an entry is what its one pair for it does. -/
theorem recv_entry (h : Stable links routers) (linked : RoutesLinked links routers)
    (peer : links.peer r i = some (n, j)) {cell : DVCell}
    (found : (routers n).dvMap[d]? = some cell) :
    ∃ u : Update, u.router.dvMap[d]? = (routers r).dvMap[d]? ∧ u.router.routerId = r ∧
      u.router.directNeighbors = (routers r).directNeighbors ∧
      (Router.recvPair 0 n (links.rtt r n) u (d, cell.cost)).router.dvMap[d]?.map DVCell.route =
        (routers r).dvMap[d]?.map DVCell.route := by
  have back := links.symm r i n j peer
  have here := links.closed r i n j peer
  have there := links.closed n j r i back
  have knows : (routers r).Knows (routers n).routerId := by
    rw [h.routerId n there]
    exact ⟨_, h.directNeighbor peer⟩
  -- the cost passes through the 16 bits of the pair
  have small : cell.cost % 2 ^ 16 = cell.cost := by
    have := h.bounded n there d cell found r i n j peer
    dsimp only [infinityCost] at this
    omega
  have member : (d, cell.cost) ∈ (routers n).fullTable.map Advert.pair := by
    refine List.mem_map.mpr ⟨.route d cell.cost, Router.mem_fullTable.mpr ⟨cell, found, rfl⟩, ?_⟩
    rw [Advert.pair, small]
  have nodup : (((routers n).fullTable.map Advert.pair).map Prod.fst).Nodup := by
    rw [List.map_map]
    have same : Prod.fst ∘ Advert.pair = Advert.dest := funext Advert.pair_fst
    rw [same]
    exact Router.nodup_fullTable _
  have received := Router.received_dvPacket (routers n) (linked.fits n there) j
  -- no other pair of the table is for `d`, so that the entry is as it was when its pair comes
  obtain ⟨u, entry, sameLinks, result⟩ :=
    Router.recvPairs_dvMap_of_nodup 0 n (links.rtt r n) nodup ⟨routers r, []⟩ member
  refine ⟨u, entry, sameLinks.routerId.trans (h.routerId r here), sameLinks.directNeighbors, ?_⟩
  have stable := h.stable r i n j peer 0 0 d
  unfold Router.recvDV at stable
  rw [Router.learnNeighbor_of_knows knows] at stable
  have source : ((routers n).dvPacket (routers n).fullTable j).source = n := h.routerId n there
  have link : (routers r).linkCost n = links.rtt r n := by
    simp [Router.linkCost, h.directNeighbor peer]
  simp only [received, source, link] at stable
  rw [← result, stable]

/-- No link can improve a route. -/
theorem relaxed (h : Stable links routers) (linked : RoutesLinked links routers) (d : ℕ) :
    links.graph.Relaxed d (costTo routers d) := by
  refine ⟨if_pos rfl, fun u v w c edge label => ?_⟩
  by_cases arrived : u = d
  · exact ⟨0, Nat.zero_le _, if_pos arrived⟩
  obtain ⟨⟨i, j, peer⟩, rfl⟩ := Links.weight_eq_some_iff.mp edge
  have here := links.closed u i v j peer
  simp only [costTo, if_neg arrived, Option.map_eq_some_iff]
  by_cases last : v = d
  · subst last
    obtain ⟨cell, found, le⟩ := h.near u here v _ (h.directNeighbor peer)
    exact ⟨cell.cost, Nat.le_trans le (Nat.le_add_left ..), cell, found, rfl⟩
  · rw [costTo, if_neg last] at label
    obtain ⟨cell, found, rfl⟩ := Option.map_eq_some_iff.mp label
    have small := h.bounded v (links.closed v j u i (links.symm u i v j peer)) d cell found u i v j peer
    -- behind the pair the route is within the bound, and the pair changed nothing
    obtain ⟨x, entry, routerId, -, result⟩ := h.recv_entry linked peer found
    obtain ⟨after, found', le⟩ := Router.recvPair_within 0 v (links.rtt u v)
      (show cell.cost ≠ infinityCost by dsimp only [infinityCost] at *; omega)
      (show d ≠ x.router.routerId by rw [routerId]; exact fun same => arrived same.symm)
    rw [found', Option.map_some] at result
    obtain ⟨before, found'', same⟩ := Option.map_eq_some_iff.mp result.symm
    have cost : before.cost = after.cost := congrArg Prod.snd same
    refine ⟨before.cost, ?_, before, found'', rfl⟩
    dsimp only [infinityCost] at small
    omega

/-- The next hop of a route. -/
theorem next (h : Stable links routers) (linked : RoutesLinked links routers) (member : r ∈ links.nodes)
    {cell : DVCell} (found : (routers r).dvMap[d]? = some cell) :
    (∃ i j, links.peer r i = some (cell.nextHop, j)) ∧
      ∃ k, costTo routers d cell.nextHop = some k ∧ cell.cost = k + links.rtt r cell.nextHop := by
  obtain ⟨direct, known⟩ := linked.neighbor r member d cell found
  obtain ⟨⟨j, peer⟩, rtt⟩ := (h.neighbors r member _ _).mp known
  refine ⟨⟨direct.port, j, peer⟩, ?_⟩
  by_cases last : cell.nextHop = d
  · have cost := h.direct r member d cell found last
    rw [last] at known rtt ⊢
    rw [known, Option.map_some] at cost
    exact ⟨0, if_pos rfl, by rw [← Option.some.inj cost, rtt, Nat.zero_add]⟩
  · have self : r ≠ d := by
      rintro rfl
      rw [h.self r member] at found
      cases found
    -- the next hop has a route, or it would take this one
    obtain ⟨k, -, label⟩ := (h.relaxed linked d).edge cell.nextHop r _ cell.cost
      (Links.weight_of_peer (links.symm _ _ _ _ peer)) (by rw [costTo, if_neg self, found, Option.map_some])
    refine ⟨k, label, ?_⟩
    rw [costTo, if_neg last] at label
    obtain ⟨cell', found', rfl⟩ := Option.map_eq_some_iff.mp label
    have there := links.closed _ _ _ _ (links.symm _ _ _ _ peer)
    have small := h.bounded _ there d cell' found' _ _ _ _ peer
    obtain ⟨x, entry, -, -, result⟩ := h.recv_entry linked peer found'
    rw [found] at entry result
    rcases Router.recvPair_via 0 (links.rtt r cell.nextHop)
      (show cell'.cost ≠ infinityCost by dsimp only [infinityCost] at *; omega) entry rfl with adopted | ⟨near, -, -, moved⟩
    · rw [adopted, Option.map_some, Option.map_some] at result
      have cost : (cell'.cost + links.rtt r cell.nextHop) % 2 ^ 32 = cell.cost :=
        congrArg Prod.snd (Option.some.inj result)
      dsimp only [infinityCost] at small
      omega
    · rw [moved, Option.map_some, Option.map_some] at result
      exact absurd (congrArg Prod.fst (Option.some.inj result)).symm last

/-- Costs are distances. -/
theorem costTo_iff (h : Stable links routers) (linked : RoutesLinked links routers)
    (member : r ∈ links.nodes) (d : ℕ) {c : ℕ} :
    costTo routers d r = some c ↔ links.graph.IsDistance d r c := by
  -- outside the network nothing is known about the tables, so that the label stops there
  let label : ℕ → Option ℕ := fun v => if v ∈ links.nodes ∨ v = d then costTo routers d v else none
  have inside : ∀ v, v ∈ links.nodes ∨ v = d → label v = costTo routers d v :=
    fun v known => if_pos known
  have relaxed : links.graph.Relaxed d label := by
    refine ⟨(inside d (.inr rfl)).trans (if_pos rfl), fun u v w c edge found => ?_⟩
    have there : u ∈ links.nodes ∧ v ∈ links.nodes := by
      refine ⟨List.mem_toFinset.mp (Links.mem_nodes_of_weight edge), ?_⟩
      rw [links.graph.symm] at edge
      exact List.mem_toFinset.mp (Links.mem_nodes_of_weight edge)
    rw [inside v (.inl there.2)] at found
    rw [inside u (.inl there.1)]
    exact (h.relaxed linked d).edge u v w c edge found
  have supported : links.graph.Supported d label := by
    intro u c found other
    have there : u ∈ links.nodes ∨ u = d := by
      by_contra outside
      rw [show label u = none from if_neg outside] at found
      cases found
    rw [inside u there, costTo, if_neg other] at found
    obtain ⟨cell, entry, rfl⟩ := Option.map_eq_some_iff.mp found
    obtain ⟨⟨i, j, peer⟩, k, next, cost⟩ :=
      h.next linked (there.resolve_right other) entry
    refine ⟨cell.nextHop, _, k, Links.weight_of_peer peer, ?_, cost⟩
    rw [inside _ (.inl (links.closed _ _ _ _ (links.symm _ _ _ _ peer))), next]
  rw [← inside r (.inl member)]
  exact WeightedGraph.label_iff_isDistance relaxed supported

/-- Data packets are passed to the next hop. -/
theorem nextRouter_eq (h : Stable links routers) (linked : RoutesLinked links routers)
    (member : r ∈ links.nodes) (other : r ≠ d) {cell : DVCell}
    (found : (routers r).dvMap[d]? = some cell) :
    links.nextRouter (routers r) d = some cell.nextHop := by
  obtain ⟨direct, known⟩ := linked.neighbor r member d cell found
  obtain ⟨⟨j, peer⟩, -⟩ := (h.neighbors r member _ _).mp known
  have forwarding := h.forwarding r member d
  rw [found, Option.map_some] at forwarding
  simp [Links.nextRouter, Router.recvDATA, h.routerId r member, other.symm, forwarding, known, peer]

/-- A data packet follows the next hops to its destination, getting nearer at each. -/
theorem forwards (h : Stable links routers) (linked : RoutesLinked links routers) :
    ∀ c r, r ∈ links.nodes → costTo routers d r = some c →
      Relation.ReflTransGen (Forwards links routers d) r d := by
  intro c
  induction c using Nat.strong_induction_on with
  | _ c ih =>
    intro r member cost
    by_cases arrived : r = d
    · exact arrived ▸ .refl
    · have label := cost
      rw [costTo, if_neg arrived] at label
      obtain ⟨cell, found, rfl⟩ := Option.map_eq_some_iff.mp label
      obtain ⟨⟨i, j, peer⟩, k, next, sum⟩ := h.next linked member found
      have positive := links.rtt_pos r i _ j peer
      refine .head ⟨h.nextRouter_eq linked member arrived found, cell.cost, k, cost, next, by omega⟩ ?_
      exact ih k (by omega) cell.nextHop (links.closed _ _ _ _ (links.symm _ _ _ _ peer)) next

end Stable

/-- In a stable state whose routes all go through neighbours, exactly the connected
routers have routes, their costs are the distances, and forwarding follows them. -/
theorem stableTables_shortest (links : Links) (routers : ℕ → Router)
    (stable : Stable links routers) (linked : RoutesLinked links routers) :
    ∀ r ∈ links.nodes, ∀ d ∈ links.nodes, r ≠ d →
      ((∃ cell, (routers r).dvMap[d]? = some cell) ↔ ∃ c, links.graph.Walk d r c) ∧
        ∀ cell, (routers r).dvMap[d]? = some cell → links.graph.IsDistance d r cell.cost ∧
          Relation.ReflTransGen (Forwards links routers d) r d := by
  intro r member d _ other
  have cost : ∀ cell, (routers r).dvMap[d]? = some cell → costTo routers d r = some cell.cost := by
    intro cell found
    rw [costTo, if_neg other, found, Option.map_some]
  refine ⟨⟨?_, ?_⟩, fun cell found => ⟨?_, ?_⟩⟩
  · rintro ⟨cell, found⟩
    exact ⟨cell.cost, ((stable.costTo_iff linked member d).mp (cost cell found)).walk⟩
  · rintro ⟨c, walk⟩
    obtain ⟨k, distance⟩ := walk.exists_distance
    have label := (stable.costTo_iff linked member d).mpr distance
    rw [costTo, if_neg other] at label
    obtain ⟨cell, found, -⟩ := Option.map_eq_some_iff.mp label
    exact ⟨cell, found⟩
  · exact (stable.costTo_iff linked member d).mp (cost cell found)
  · exact stable.forwards linked cell.cost r member (cost cell found)

/-- A router that has a route to the other end of its link. -/
def pairRouter (r : ℕ) : Router :=
  { Router.init 1 r .dv with
    ports := fun _ => ⟨3 - r, 10, 0, true⟩
    directNeighbors := (∅ : Table NNCell).insert (3 - r) ⟨10, 0⟩
    forwardingTable := (∅ : Table ℕ).insert (3 - r) (3 - r)
    dvMap := (∅ : Table DVCell).insert (3 - r) ⟨3 - r, 10, 0⟩ }

theorem pairRouter_dvMap (r d : ℕ) :
    (pairRouter r).dvMap[d]? = if d = 3 - r then some ⟨3 - r, 10, 0⟩ else none :=
  (Table.getElem?_insert ..).trans (by rw [Std.ExtTreeMap.getElem?_empty])

theorem pairRouter_directNeighbors (r n : ℕ) :
    (pairRouter r).directNeighbors[n]? = if n = 3 - r then some ⟨10, 0⟩ else none :=
  (Table.getElem?_insert ..).trans (by rw [Std.ExtTreeMap.getElem?_empty])

theorem pairRouter_forwardingTable (r d : ℕ) :
    (pairRouter r).forwardingTable[d]? = if d = 3 - r then some (3 - r) else none :=
  (Table.getElem?_insert ..).trans (by rw [Std.ExtTreeMap.getElem?_empty])

/-- The table of the other end is about this router only, which is ignored. -/
theorem pairRouter_recvDV {r n : ℕ} (ends : r = 1 ∧ n = 2 ∨ r = 2 ∧ n = 1) (now junk : ℕ) :
    ((pairRouter r).recvDV now 0 ((pairRouter n).dvPacket (pairRouter n).fullTable 0) junk).router =
      pairRouter r := by
  have knows : (pairRouter r).Knows n := ⟨⟨10, 0⟩, by
    rw [pairRouter_directNeighbors, if_pos (by omega)]⟩
  have table : ((pairRouter n).dvPacket (pairRouter n).fullTable 0).received = [(r, 10)] := by
    rcases ends with ⟨rfl, rfl⟩ | ⟨rfl, rfl⟩ <;> decide +kernel
  have absent : (pairRouter r).dvMap[r]? = none := by
    rw [pairRouter_dvMap, if_neg (by omega)]
  unfold Router.recvDV
  rw [Router.learnNeighbor_of_knows (show (pairRouter r).Knows (pairRouter n).routerId from knows), table]
  simp only [List.foldl_cons, List.foldl_nil, Router.recvPair, absent]
  rw [if_neg (by simp [pairRouter, Router.init])]

theorem oneLink_nodes {r : ℕ} (member : r ∈ Links.oneLink.nodes) : r = 1 ∨ r = 2 := by
  simpa [Links.oneLink, Network.oneLink] using member

/-- The only entry of a table is the one for the other end. -/
theorem pairRouter_entry {r d : ℕ} {cell : DVCell} (found : (pairRouter r).dvMap[d]? = some cell) :
    d = 3 - r ∧ cell = ⟨3 - r, 10, 0⟩ := by
  rw [pairRouter_dvMap] at found
  split_ifs at found with here
  exact ⟨here, (Option.some.inj found).symm⟩

theorem pairRouter_stable : Stable Links.oneLink pairRouter where
  routerId _ _ := rfl
  neighbors r member n cell := by
    rw [pairRouter_directNeighbors]
    constructor
    · intro known
      split_ifs at known with here
      obtain rfl := Option.some.inj known
      rcases oneLink_nodes member with rfl | rfl <;> subst here <;> exact ⟨⟨0, rfl⟩, rfl⟩
    · rintro ⟨⟨j, peer⟩, rtt⟩
      obtain ⟨port, -, ends⟩ := Links.oneLink_peer peer
      rw [if_pos (by omega)]
      cases cell
      simp only [NNCell.mk.injEq, Option.some.injEq]
      exact ⟨rtt.symm, port.symm⟩
  near r member n direct known := by
    rw [pairRouter_directNeighbors] at known
    split_ifs at known with here
    obtain rfl := Option.some.inj known
    exact ⟨⟨3 - r, 10, 0⟩, by rw [pairRouter_dvMap, if_pos here], Nat.le_refl _⟩
  direct r member d cell found _ := by
    obtain ⟨here, rfl⟩ := pairRouter_entry found
    rw [pairRouter_directNeighbors, if_pos here]
    rfl
  bounded r member d cell found a i b j _ := by
    obtain ⟨-, rfl⟩ := pairRouter_entry found
    simp [Links.oneLink, infinityCost]
  self r member := by
    rw [pairRouter_dvMap, if_neg]
    have := oneLink_nodes member
    omega
  forwarding r member d := by
    rw [pairRouter_forwardingTable, pairRouter_dvMap]
    split_ifs <;> rfl
  stable r i n j peer now junk d := by
    obtain ⟨rfl, rfl, ends⟩ := Links.oneLink_peer peer
    rw [pairRouter_recvDV ends]

theorem pairRouter_routesLinked : RoutesLinked Links.oneLink pairRouter where
  fits r _ := by
    have only : (pairRouter r).fullTable.map Advert.dest ⊆ [3 - r] := by
      intro d listed
      obtain ⟨advert, pushed, rfl⟩ := List.mem_map.mp listed
      obtain ⟨⟨d, cell⟩, entry, rfl⟩ := List.mem_map.mp pushed
      have found := Std.ExtTreeMap.mem_toList_iff_getElem?_eq_some.mp entry
      exact List.mem_singleton.mpr (pairRouter_entry found).1
    have le := ((Router.nodup_fullTable (pairRouter r)).subperm only).length_le
    rw [List.length_map, List.length_singleton] at le
    omega
  neighbor r _ d cell found := by
    obtain ⟨rfl, rfl⟩ := pairRouter_entry found
    exact ⟨⟨10, 0⟩, by rw [pairRouter_directNeighbors, if_pos rfl]⟩

/-- Two routers that know their link are in a stable state, and at distance 10. -/
theorem pairRouter_shortest : ∃ cell, (pairRouter 1).dvMap[2]? = some cell ∧
    Links.oneLink.graph.IsDistance 2 1 cell.cost ∧
      Relation.ReflTransGen (Forwards Links.oneLink pairRouter 2) 1 2 := by
  have found : (pairRouter 1).dvMap[2]? = some ⟨2, 10, 0⟩ := by rw [pairRouter_dvMap, if_pos rfl]
  exact ⟨_, found, (stableTables_shortest Links.oneLink pairRouter pairRouter_stable
    pairRouter_routesLinked 1 (by decide) 2 (by decide) (by decide)).2 _ found⟩

/-- Routers 1 and 2, without links. -/
def noLinks : Links where
  nodes := [1, 2]
  numPorts _ := 0
  protocolType := .dv
  peer _ _ := none
  symm _ _ _ _ h := by cases h
  inside _ _ _ _ h := by cases h
  loopless _ _ _ _ h := by cases h
  rtt _ _ := 1
  rtt_symm _ _ := rfl
  rtt_pos _ _ _ _ h := by cases h
  single _ _ _ _ _ _ h := by cases h
  closed _ _ _ _ h := by cases h
  small := by decide

/-- Router 1 has a route to 2 through 7, which is not its neighbour. -/
def phantomRouter (r : ℕ) : Router :=
  if r = 1 then (Router.init 0 1 .dv).install 2 ⟨7, 5, 0⟩ else .init 0 r .dv

theorem phantomRouter_directNeighbors (r n : ℕ) : (phantomRouter r).directNeighbors[n]? = none := by
  unfold phantomRouter
  split_ifs <;> simp [Router.install, Router.init]

theorem phantomRouter_dvMap (r d : ℕ) : (phantomRouter r).dvMap[d]? =
    if r = 1 ∧ d = 2 then some ⟨7, 5, 0⟩ else none := by
  unfold phantomRouter
  split_ifs with here both both
  · rw [Router.install_dvMap, if_pos both.2]
  · rw [Router.install_dvMap, if_neg fun h => both ⟨here, h⟩]
    simp [Router.init]
  · exact absurd both.1 here
  · simp [Router.init]

theorem phantomRouter_forwardingTable (r d : ℕ) : (phantomRouter r).forwardingTable[d]? =
    (phantomRouter r).dvMap[d]?.map DVCell.nextHop := by
  rw [phantomRouter_dvMap]
  unfold phantomRouter
  split_ifs with here both both
  · rw [Router.install_forwardingTable, if_pos both.2, Option.map_some]
  · rw [Router.install_forwardingTable, if_neg fun h => both ⟨here, h⟩]
    simp [Router.init]
  · exact absurd both.1 here
  · simp [Router.init]

theorem phantomRouter_stable : Stable noLinks phantomRouter := by
  constructor
  case routerId =>
    intro r _
    unfold phantomRouter
    split_ifs with here
    · exact here.symm
    · rfl
  case neighbors =>
    intro r _ n cell
    rw [phantomRouter_directNeighbors]
    constructor
    · intro known
      cases known
    · rintro ⟨⟨j, peer⟩, -⟩
      cases peer
  case near =>
    intro r _ n direct known
    rw [phantomRouter_directNeighbors] at known
    cases known
  case direct =>
    intro r _ d cell found hop
    rw [phantomRouter_dvMap] at found
    split_ifs at found with here
    obtain rfl := Option.some.inj found
    exact absurd (hop.trans here.2) (by decide)
  case bounded =>
    intro r _ d cell _ a i b j peer
    cases peer
  case self =>
    intro r _
    rw [phantomRouter_dvMap, if_neg (by omega)]
  case forwarding => exact fun r _ => phantomRouter_forwardingTable r
  case stable =>
    intro r i n j peer
    cases peer

/-- A route that no neighbour supports stays in a stable state, although its destination
is not connected. -/
theorem phantomRouter_stays : Stable noLinks phantomRouter ∧
    (∃ cell, (phantomRouter 1).dvMap[2]? = some cell) ∧ ¬ ∃ c, noLinks.graph.Walk 2 1 c := by
  refine ⟨phantomRouter_stable, ⟨⟨7, 5, 0⟩, ?_⟩, ?_⟩
  · rw [phantomRouter_dvMap, if_pos ⟨rfl, rfl⟩]
  · rintro ⟨c, walk⟩
    cases walk with
    | cons edge walk => cases edge

end ComputerNetworks.Routing
