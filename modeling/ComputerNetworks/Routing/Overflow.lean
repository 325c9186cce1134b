import ComputerNetworks.Routing.Announcements
import ComputerNetworks.Routing.Network

/-!
# Costs in DV packets

A cost has 32 bits in the tables and 16 in a DV packet, and `infinityCost` is the
largest of the latter. Nothing keeps the stored costs below it: round trip times and
sums along a path may exceed it, and are then narrowed. The run theorem says what
must not happen anywhere in a network for every cost to be finite and every advert
to be exact.
-/

namespace ComputerNetworks.Routing

open Lib

/-- The pair of a live route carries its cost, which is not `infinityCost`. -/
def Advert.Exact : Advert → Prop
  | route dest cost => (route dest cost).pair = (dest, cost) ∧ cost < infinityCost
  | withdrawn _ => True

namespace Router

/-- No pair for the destination of `pair` is better than a route that does not go
through the sender. -/
def Outdoes (r : Router) (source link : ℕ) (pairs : List (ℕ × ℕ)) (dest : ℕ) : Prop :=
  ∃ cell, r.dvMap[dest]? = some cell ∧ cell.nextHop ≠ source ∧
    ∀ pair ∈ pairs, pair.1 = dest → pair.2 ≠ infinityCost → cell.cost ≤ (pair.2 + link) % 2 ^ 32

/-- The round trip time of a PONG is finite, and so are the new costs of the routes
through its sender; a DV packet tells a new neighbour's finite cost, and of its pairs
whose sum with the link cost is not finite none can be adopted. -/
def StaysFinite (r : Router) : Event → Prop
  | .recv now port (.pong src _ time) _ =>
    sub32 now time < infinityCost ∧
      ∀ (dest : ℕ) cell, r.dvMap[dest]? = some cell → cell.nextHop = src → dest ≠ src →
        r.directNeighbors[dest]? = none →
          (cell.cost + sub32 (sub32 now time) (r.ports port).cost) % 2 ^ 16 < infinityCost
  | .recv _ port (.dv packet) junk =>
    let link := (r.learnNeighbor port packet junk).linkCost packet.source
    (¬ r.Knows packet.source → link < infinityCost) ∧
      ∀ pair ∈ packet.received, pair.2 ≠ infinityCost → pair.2 + link < infinityCost ∨
        pair.1 = r.routerId ∨ r.Outdoes packet.source link packet.received pair.1
  | _ => True

variable {site : Site} {r : Router} {u : Update}

/-! ### DV packets -/

/-- A route that outdoes the packet stays. -/
def Unmoved (r : Router) (source link : ℕ) (pairs : List (ℕ × ℕ)) (u : Update) : Prop :=
  ∀ (dest : ℕ) cell, r.dvMap[dest]? = some cell → cell.nextHop ≠ source →
    (∀ pair ∈ pairs, pair.1 = dest → pair.2 ≠ infinityCost →
      cell.cost ≤ (pair.2 + link) % 2 ^ 32) → u.router.dvMap[dest]? = some cell

theorem Unmoved.recvPair {now source link : ℕ} {pairs : List (ℕ × ℕ)} {pair : ℕ × ℕ}
    (h : Unmoved r source link pairs u) (member : pair ∈ pairs) :
    Unmoved r source link pairs (recvPair now source link u pair) := by
  intro dest cell found other worse
  have kept := h dest cell found other worse
  obtain ⟨d, cost⟩ := pair
  generalize outcome : Router.recvPair now source link u (d, cost) = v
  have result := recvPair_result now source link u d cost
  rw [outcome] at result
  by_cases here : dest = d
  · subst here
    cases result with
    | ignored => exact kept
    | added _ absent =>
      rw [kept] at absent
      cases absent
    | adopted finite found' better =>
      cases kept.symm.trans found'
      -- adopting needs a better cost or the same next hop, and the route has neither
      rcases better with less | ⟨via, -⟩
      · exact absurd less (not_lt.mpr (worse _ member rfl finite))
      · exact absurd via.symm other
    | direct found' via =>
      cases kept.symm.trans found'
      exact absurd via.symm other
    | withdrawn _ found' via =>
      cases kept.symm.trans found'
      exact absurd via.symm other
    | told => exact kept
  · cases result with
    | ignored => exact kept
    | added => exact (install_dvMap ..).trans ((if_neg here).trans kept)
    | adopted => exact (install_dvMap ..).trans ((if_neg here).trans kept)
    | direct => exact (install_dvMap ..).trans ((if_neg here).trans kept)
    | withdrawn => exact (drop_dvMap ..).trans ((if_neg here).trans kept)
    | told => exact kept

theorem recvPairs_finite {now source link : ℕ} {all pairs : List (ℕ × ℕ)}
    (fits : ∀ pair ∈ all, pair.2 ≠ infinityCost → pair.2 + link < infinityCost ∨
      pair.1 = u.router.routerId ∨ r.Outdoes source link all pair.1)
    (sub : pairs ⊆ all) (known : u.router.Knows source) (routed : u.router.Routed [])
    (costs : u.CostsBelow infinityCost) (unmoved : Unmoved r source link all u) :
    (pairs.foldl (Router.recvPair now source link) u).CostsBelow infinityCost := by
  induction pairs generalizing u with
  | nil => exact costs
  | cons pair pairs ih =>
    have member : pair ∈ all := sub List.mem_cons_self
    have moves : Moves u (Router.recvPair now source link u pair) := recvPair_moves known pair
    refine ih ?_ (fun p later => sub (List.mem_cons_of_mem _ later)) (moves.knows known)
      (moves.routed routed) ?_ (unmoved.recvPair member)
    · rw [moves.sameLinks.routerId]
      exact fits
    refine recvPair_costsBelow costs fun finite adopts => ?_
    rcases fits pair member finite with small | self | ⟨cell, found, other, worse⟩
    · exact lt_of_le_of_lt (Nat.mod_le _ _) small
    · rcases adopts with ⟨-, other⟩ | ⟨cell, found, -⟩
      · exact absurd self other
      · rw [self, routed.self] at found
        cases found
    -- a route that outdoes the packet is still there, so that the pair is not adopted
    · have kept := unmoved pair.1 cell found other worse
      rcases adopts with ⟨absent, -⟩ | ⟨cell', found', via⟩
      · rw [kept] at absent
        cases absent
      · cases kept.symm.trans found'
        exact absurd via.symm other

/-! ### Whole calls -/

theorem Advert.exact_of_costsBelow (costs : u.CostsBelow infinityCost) :
    ∀ advert ∈ u.newPacket, advert.Exact := by
  rintro (⟨dest, cost⟩ | ⟨dest⟩) member
  · have small := costs.pushed dest cost member
    refine ⟨?_, small⟩
    dsimp only [infinityCost] at small
    rw [Advert.pair, Nat.mod_eq_of_lt (by omega)]
  · trivial

/-- A call that meets the condition stores finite costs and pushes exact adverts. -/
theorem StaysFinite.handle {event : Event} (finite : r.StaysFinite event)
    (coherent : r.Coherent site) (admitted : site.admits event = true)
    (costs : r.CostsBelow infinityCost) :
    (r.handle event).1.CostsBelow infinityCost ∧ ∀ advert ∈ r.advertised event, advert.Exact := by
  have quiet : ∀ advert ∈ ([] : List Advert), advert.Exact := by simp
  cases event with
  | recv now port packet junk =>
    cases packet with
    | data source dest payload =>
      rw [handle_data, coherent.routed.recvDATA]
      exact ⟨costs, quiet⟩
    | ping source time =>
      rw [handle_ping]
      exact ⟨costs, quiet⟩
    | pong source dest time =>
      rw [handle_pong, advertised_pong, Update.finish_fst]
      have below : (r.handlePong now port source time).CostsBelow infinityCost :=
        handlePong_costsBelow costs finite.1 finite.2
      exact ⟨below.router, Advert.exact_of_costsBelow below⟩
    | dv packet =>
      rw [handle_dv, advertised_dv, Update.finish_fst]
      have learnt := coherent.learnNeighbor admitted junk
      have below : (r.recvDV now port packet junk).CostsBelow infinityCost := by
        -- the tables that the pairs see first are those that `learnNeighbor` left
        refine recvPairs_finite (r := r) (by rw [learnNeighbor_routerId]; exact finite.2) (fun _ => id)
          (learnNeighbor_knows port packet junk r) learnt.routed
          (costs.learnNeighbor finite.1).start fun dest cell found _ _ => ?_
        rw [learnNeighbor_dvMap]
        exact found
      exact ⟨below.router, Advert.exact_of_costsBelow below⟩
  | alarm now type =>
    cases type with
    | expire =>
      rw [handle_expire, advertised_expire]
      split_ifs
      · have below := refreshDV_costsBelow costs now
        exact ⟨below.router, Advert.exact_of_costsBelow below⟩
      · exact ⟨costs, quiet⟩
    | pingPong =>
      rw [handle_pingPong]
      exact ⟨costs, quiet⟩
    | update =>
      rw [handle_update, advertised_update]
      refine ⟨costs, ?_⟩
      split_ifs
      · refine Advert.exact_of_costsBelow (u := ⟨r, r.fullTable⟩) ⟨costs, fun dest cost member => ?_⟩
        obtain ⟨cell, found, rfl⟩ := mem_fullTable.mp member
        exact costs.routes dest cell found
      · exact quiet

end Router

namespace Network

variable {topology : Topology} {net net' : Network}

/-- All stored costs are finite behind the step, and the DV packets it sends are made
of exact adverts. -/
structure FiniteStep (net : Network) (action : NetworkAction) (net' : Network) : Prop where
  stored : ∀ r (dest : ℕ) cell, (net'.routers r).dvMap[dest]? = some cell → cell.cost < infinityCost
  sent : ∀ r event, net.event action = some (r, event) → ∀ i packet,
    (i, .dv packet) ∈ ((net.routers r).handle event).2 →
      packet.pairs = ((net.routers r).advertised event).map Advert.pair ∧
        ∀ advert ∈ (net.routers r).advertised event, advert.Exact

/-- The call of an action meets the condition of its router. -/
def StaysFinite (net : Network) (action : NetworkAction) : Prop :=
  ∀ r event, net.event action = some (r, event) → (net.routers r).StaysFinite event

/-- In every run of a network whose calls all meet the condition, every stored cost is
finite, and every pair sent for a live route carries its cost, so that `infinityCost`
stands for withdrawn destinations only. -/
theorem finite_of_staysFinite (topology : Topology) (clock : ℕ) {actions : List NetworkAction}
    (finite : EachStep (step topology) (fun net action _ => net.StaysFinite action)
      (start topology clock) actions) :
    EachStep (step topology) FiniteStep (start topology clock) actions := by
  have moved : ∀ (net : Network) action net',
      (net.Sound topology ∧ ∀ r, (net.routers r).CostsBelow infinityCost) →
      net.step topology action = some net' → net.StaysFinite action →
        (∀ r, (net'.routers r).CostsBelow infinityCost) ∧ FiniteStep net action net' := by
    rintro net action net' ⟨sound, costs⟩ next kept
    have after : ∀ r, (net'.routers r).CostsBelow infinityCost := by
      rcases step_cases next with ⟨base, s, now, event, routers, -, called, rfl⟩ | ⟨-, k, rfl⟩
      · intro r
        have handled := (kept s event called).handle (sound.coherent s) (sound.admits called) (costs s)
        by_cases here : r = s
        · subst here
          simpa [Network.call, routers] using handled.1
        · simpa [Network.call, routers, here] using costs r
      · exact costs
    refine ⟨after, fun r => (after r).routes, fun r event called i packet sent => ?_⟩
    obtain ⟨-, rfl⟩ := Router.handle_dvPacket sent
    exact ⟨rfl, ((kept r event called).handle (sound.coherent r) (sound.admits called) (costs r)).2⟩
  have begins : (start topology clock).Sound topology ∧
      ∀ r, ((start topology clock).routers r).CostsBelow infinityCost :=
    ⟨.start topology clock, fun r => by constructor <;> simp [start, Site.start, Router.init]⟩
  refine EachStep.imp_of_invariant (fun net action net' inv next kept =>
    ⟨inv.1.step next, (moved net action net' inv next kept).1⟩)
    (fun net action net' inv next kept => (moved net action net' inv next kept).2) begins finite

/-- A PING and its PONG over a link that takes 32768 ms each way. -/
def slowPong : List NetworkAction := [.deliver 0 32768 0, .deliver 1 65536 0]

/-- The route to 2 costs 65536, more than `infinityCost`, and is advertised at cost 0. -/
theorem slowPong_overflows : ¬ EachStep (step oneLink) FiniteStep (start oneLink 0) slowPong := by
  intro each
  obtain ⟨-, rest⟩ := each _ rfl
  obtain ⟨finite, -⟩ := rest _ rfl
  have small := finite.stored 1 2 ⟨2, 65536, 65536⟩ (by decide +kernel)
  exact absurd small (by decide)

/-- Over a faster link the costs stay finite. -/
theorem fastPong_finite : EachStep (step oneLink) FiniteStep (start oneLink 0)
    [.deliver 0 10 0, .deliver 1 20 0] := by
  refine finite_of_staysFinite oneLink 0 fun net first => ⟨?_, fun net' second => ⟨?_, trivial⟩⟩
  · rintro r event called
    cases called
    trivial
  · cases first
    rintro r event called
    cases called
    refine ⟨by decide, fun dest cell found => ?_⟩
    simp [call, start, Topology.site, Site.start, Router.init] at found

end Network

end ComputerNetworks.Routing
