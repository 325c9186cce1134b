import ComputerNetworks.Lib.BellmanFord
import ComputerNetworks.Routing.Repricing

/-!
# `recvDV` is the Bellman-Ford update

While no neighbour costs more than the link to it, the branches of `recvDV` do to a
route what the reference update does, one pair after the other.
-/

namespace ComputerNetworks.Routing

open Lib

/-- What a pair of a DV packet tells: `INFINITY_COST` stands for no route. -/
def told (pair : ℕ × ℕ) : ℕ × Option ℕ :=
  (pair.1, if pair.2 = infinityCost then none else some pair.2)

namespace Router

/-- The routes of a router. -/
def routes (r : Router) : Routes ℕ := fun d => r.dvMap[d]?.map DVCell.route

/-- The costs of its links. -/
def linkCosts (r : Router) (n : ℕ) : Option ℕ := r.directNeighbors[n]?.map NNCell.cost

/-- No route to a neighbour costs more than the link. -/
abbrev Near (r : Router) : Prop := Routes.Near r.linkCosts r.routes

variable {r s : Router} {u : Update} {now source link dest cost : ℕ}

theorem routes_some {d : ℕ} {cell : DVCell} (found : r.dvMap[d]? = some cell) :
    r.routes d = some cell.route := by
  rw [routes, found]
  rfl

theorem SameLinks.linkCosts (same : r.SameLinks s) : s.linkCosts = r.linkCosts := by
  funext n
  rw [Router.linkCosts, Router.linkCosts, same.directNeighbors]

/-- A route is what was installed last. -/
theorem reroute_routes (u : Update) (dest : ℕ) (cell : DVCell) :
    (u.reroute dest cell).router.routes = Function.update u.router.routes dest (some cell.route) := by
  funext d
  rw [Function.update_apply]
  unfold routes Update.reroute
  rw [install_dvMap]
  split_ifs <;> rfl

theorem withdraw_routes (u : Update) (dest : ℕ) :
    (u.withdraw dest).router.routes = Function.update u.router.routes dest none := by
  funext d
  rw [Function.update_apply]
  unfold routes Update.withdraw
  rw [drop_dvMap]
  split_ifs <;> rfl

theorem routes_none {d : ℕ} (absent : r.dvMap[d]? = none) : r.routes d = none := by
  rw [routes, absent]
  rfl

/-- What a finite pair does to a route through its sender: the direct link limits it. -/
theorem recvPair_next {cell : DVCell} (near : u.router.Near) (finite : cost ≠ infinityCost)
    (fits : cost + link < 2 ^ 32) (found : u.router.dvMap[dest]? = some cell)
    (via : cell.nextHop = source) :
    (recvPair now source link u (dest, cost)).router.routes =
      Function.update u.router.routes dest
        (match u.router.linkCosts dest with
        | some k => some (if cost + link < k then source else dest, min (cost + link) k)
        | none => some (source, cost + link)) := by
  unfold recvPair
  dsimp only
  rw [found, Nat.mod_eq_of_lt fits]
  dsimp only
  rw [if_pos finite, if_pos via.symm]
  cases direct : u.router.directNeighbors[dest]? with
  | none =>
    have far : u.router.linkCosts dest = none := by rw [linkCosts, direct]; rfl
    rw [far]
    split_ifs <;> exact reroute_routes ..
  | some near' =>
    have linked : u.router.linkCosts dest = some near'.cost := by rw [linkCosts, direct]; rfl
    -- a sum below the old cost is below the direct link too
    obtain ⟨hop, old, entry, le⟩ := near dest near'.cost linked
    obtain ⟨rfl, rfl⟩ : cell.nextHop = hop ∧ cell.cost = old := by
      rw [routes_some found] at entry
      exact Prod.mk.inj (Option.some.inj entry)
    rw [linked]
    dsimp only
    by_cases less : cost + link < near'.cost
    · rw [if_pos less, if_pos less, ite_self, min_eq_left less.le]
      exact reroute_routes ..
    · rw [if_neg less, if_neg less, if_neg (by omega), min_eq_right (not_lt.mp less)]
      exact reroute_routes ..

/-- What a finite pair does to another route: it only gets better. -/
theorem recvPair_other {cell : DVCell} (finite : cost ≠ infinityCost) (fits : cost + link < 2 ^ 32)
    (found : u.router.dvMap[dest]? = some cell) (other : cell.nextHop ≠ source) :
    (recvPair now source link u (dest, cost)).router.routes =
      Function.update u.router.routes dest
        (some (if cost + link < cell.cost then source else cell.nextHop,
          min cell.cost (cost + link))) := by
  unfold recvPair
  dsimp only
  rw [found, Nat.mod_eq_of_lt fits]
  dsimp only
  rw [if_pos finite]
  by_cases less : cost + link < cell.cost
  · rw [if_pos less, if_pos less, min_eq_right less.le]
    exact reroute_routes ..
  · rw [if_neg less, if_neg less, if_neg (Ne.symm other), min_eq_left (not_lt.mp less)]
    exact (Function.update_eq_self_iff.mpr (routes_some found).symm).symm

/-- What an infinite pair does: the route through its sender is lost. -/
theorem recvPair_poison {cell : DVCell} (found : u.router.dvMap[dest]? = some cell) :
    (recvPair now source link u (dest, infinityCost)).router.routes =
      Function.update u.router.routes dest
        (if cell.nextHop = source then (u.router.linkCosts dest).map fun k => (dest, k)
        else some cell.route) := by
  unfold recvPair
  dsimp only
  rw [found]
  dsimp only
  rw [if_neg (not_not.mpr rfl)]
  by_cases via : cell.nextHop = source
  · rw [if_pos via, if_pos via.symm, linkCosts]
    cases u.router.directNeighbors[dest]? with
    | none => exact withdraw_routes ..
    | some direct => exact reroute_routes ..
  · rw [if_neg via, if_neg (Ne.symm via)]
    -- the pair is only answered
    exact (Function.update_eq_self_iff.mpr (routes_some found).symm).symm

/-- A new destination. -/
theorem recvPair_new (fits : cost ≠ infinityCost → cost + link < 2 ^ 32)
    (absent : u.router.dvMap[dest]? = none) :
    (recvPair now source link u (dest, cost)).router.routes =
      Function.update u.router.routes dest
        (if cost = infinityCost ∨ dest = u.router.routerId then none
        else some (source, cost + link)) := by
  unfold recvPair
  dsimp only
  rw [absent]
  dsimp only
  by_cases skip : cost = infinityCost ∨ dest = u.router.routerId
  · rw [if_pos skip, if_neg (by tauto)]
    exact (Function.update_eq_self_iff.mpr (routes_none absent).symm).symm
  · obtain ⟨finite, other⟩ := not_or.mp skip
    rw [if_neg skip, if_pos ⟨finite, other⟩, Nat.mod_eq_of_lt (fits finite)]
    exact reroute_routes ..

/-- One pair of a packet is one reference step. -/
theorem recvPair_routes (now source dest : ℕ) (near : u.router.Near)
    (fits : cost ≠ infinityCost → cost + link < 2 ^ 32) :
    (recvPair now source link u (dest, cost)).router.routes =
      Routes.hear u.router.linkCosts u.router.routerId source link u.router.routes
        (told (dest, cost)) := by
  unfold Routes.hear told
  dsimp only
  cases found : u.router.dvMap[dest]? with
  | none =>
    rw [recvPair_new fits found, routes_none found]
    by_cases poison : cost = infinityCost
    · rw [if_pos poison, if_pos (.inl poison)]
      rfl
    · rw [if_neg poison]
      simp only [poison, false_or]
      rfl
  | some cell =>
    rw [routes_some found]
    by_cases poison : cost = infinityCost
    · subst poison
      rw [recvPair_poison found, if_pos rfl]
      rfl
    · rw [if_neg poison]
      by_cases via : cell.nextHop = source
      · rw [recvPair_next near poison (fits poison) found via]
        exact congrArg _ (if_pos via).symm
      · rw [recvPair_other poison (fits poison) found via]
        exact congrArg _ (if_neg via).symm

/-- The loop over the pairs is the fold of the reference step. -/
theorem recvPairs_routes (now source link : ℕ) {pairs : List (ℕ × ℕ)} (near : u.router.Near)
    (fits : ∀ pair ∈ pairs, pair.2 ≠ infinityCost → pair.2 + link < 2 ^ 32) :
    (pairs.foldl (recvPair now source link) u).router.routes =
      (pairs.map told).foldl (Routes.hear u.router.linkCosts u.router.routerId source link)
        u.router.routes := by
  induction pairs generalizing u with
  | nil => rfl
  | cons pair pairs ih =>
    have head := recvPair_routes now source pair.1 near (fits pair List.mem_cons_self)
    have same := recvPair_sameLinks now source link u pair
    have near' : (recvPair now source link u pair).router.Near := by
      unfold Near
      rw [same.linkCosts, head]
      exact near.hear _
    have tail := ih near' fun p member => fits p (List.mem_cons_of_mem _ member)
    rw [same.linkCosts, same.routerId, head] at tail
    exact tail

/-- `recvDV` on a packet from a neighbour `n` behind a link of cost `w` is the fold of
the reference step over its pairs, and keeps what it relies on. -/
theorem recvDV_reference {packet : DVPacket} {direct : NNCell}
    (neighbor : r.directNeighbors[packet.source]? = some direct) (agrees : r.Agrees) (near : r.Near)
    (fits : ∀ pair ∈ packet.received, pair.2 ≠ infinityCost → pair.2 + direct.cost < 2 ^ 32)
    (now port junk : ℕ) :
    (r.recvDV now port packet junk).router.routes =
        (packet.received.map told).foldl
          (Routes.hear r.linkCosts r.routerId packet.source direct.cost) r.routes ∧
      (r.recvDV now port packet junk).router.Agrees ∧
      (r.recvDV now port packet junk).router.Near := by
  have known : r.Knows packet.source := ⟨direct, neighbor⟩
  have cost : r.linkCost packet.source = direct.cost := by rw [linkCost, neighbor]; rfl
  have moves := recvDV_moves now port packet junk r
  unfold recvDV at moves ⊢
  rw [learnNeighbor_of_knows known] at moves ⊢
  dsimp only at moves ⊢
  rw [cost] at moves ⊢
  have folded := recvPairs_routes (u := ⟨r, []⟩) now packet.source direct.cost near fits
  refine ⟨folded, moves.agrees agrees, ?_⟩
  unfold Near
  rw [(recvPairs_sameLinks ..).linkCosts, folded]
  exact near.hears _

/-- A packet that contradicts itself about 3. -/
def contradiction : DVPacket where
  size := 20
  source := 2
  dest := 1
  pairs := [(3, 200), (4, 7), (3, infinityCost)]

theorem detour_near : detour.Near := by
  intro d k link
  obtain ⟨direct, near, rfl⟩ := Option.map_eq_some_iff.mp link
  obtain ⟨rfl, rfl⟩ | ⟨rfl, rfl⟩ := detour_link near
  · exact ⟨2, 15, routes_some (by rw [detour_dvMap, if_pos rfl]), by decide⟩
  · have found : detour.dvMap[2]? = some ⟨2, 10, 0⟩ := by
      rw [detour_dvMap, if_neg (by decide), if_pos rfl]
    exact ⟨2, 10, routes_some found, by decide⟩

/-- The route to 3 goes back to the direct link with the first pair and stays there. -/
theorem detour_contradiction : detour.routes 3 = some (2, 15) ∧
    (detour.recvDV 5000 0 contradiction 0).router.routes 3 = some (3, 100) ∧
    (detour.recvDV 5000 0 contradiction 0).router.routes 4 = some (2, 17) := by
  have neighbor : detour.directNeighbors[contradiction.source]? = some ⟨10, 0⟩ :=
    (detour_directNeighbors 2).trans rfl
  have agrees : detour.Agrees :=
    ⟨(detour_repriceable 5 (by decide) (by decide)).agrees, rfl⟩
  obtain ⟨folded, -, -⟩ := recvDV_reference neighbor agrees detour_near
    (by decide) 5000 0 0
  rw [folded]
  refine ⟨routes_some (by rw [detour_dvMap, if_pos rfl]), ?_, ?_⟩ <;> decide +kernel

end Router

end ComputerNetworks.Routing
