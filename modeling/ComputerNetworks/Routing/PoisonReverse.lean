import ComputerNetworks.Routing.PortSync
import ComputerNetworks.Routing.Sends

/-!
# Poison reverse

With poison reverse, a router advertises infinity to the neighbour its own route goes
through. `sendDVUpdate` builds one vector for all ports and does not do this, so the
law holds only while no route to a third router goes through a connected neighbour.
The run theorem says which packets keep it so.
-/

namespace ComputerNetworks.Routing

open Lib

namespace Router

/-- Every pair for a destination routed through the router it is sent to, other than
that router itself, has cost `infinityCost`. -/
def PoisonReverse (r : Router) (sends : List Send) : Prop :=
  ∀ i packet, (i, .dv packet) ∈ sends → ∀ pair ∈ packet.pairs, ∀ cell : DVCell,
    r.dvMap[pair.1]? = some cell → cell.nextHop = (r.ports i).toId →
      pair.1 ≠ (r.ports i).toId → pair.2 = infinityCost

/-- A connected port leads to `n`. -/
def ConnectedTo (r : Router) (n : ℕ) : Prop := ∃ i, (r.ports i).connected = true ∧ (r.ports i).toId = n

/-- A route through a connected neighbour is the route to that neighbour. -/
def NoTransit (r : Router) : Prop :=
  ∀ (dest : ℕ) cell, r.dvMap[dest]? = some cell → r.ConnectedTo cell.nextHop → dest = cell.nextHop

/-- A PONG does not come from a neighbour that a third router is routed through, and a
DV packet of a connected neighbour offers nothing better for a third router. -/
def KeepsDirect (r : Router) : Event → Prop
  | .recv _ _ (.pong src _ _) _ =>
    ∀ (dest : ℕ) cell, r.dvMap[dest]? = some cell → cell.nextHop = src → dest = src
  | .recv _ _ (.dv packet) _ => r.ConnectedTo packet.source →
    ∀ pair ∈ packet.received, pair.2 ≠ infinityCost →
      pair.1 = packet.source ∨ pair.1 = r.routerId ∨ ∃ cell, r.dvMap[pair.1]? = some cell ∧
        cell.cost ≤ (pair.2 + r.linkCost packet.source) % 2 ^ 32
  | _ => True

variable {site : Site} {r s : Router} {dest : ℕ} {cell : DVCell}

/-- Without transit routes there is nothing to poison. -/
theorem NoTransit.poisonReverse {event : Event} (h : (r.handle event).1.NoTransit) :
    (r.handle event).1.PoisonReverse (r.handle event).2 := by
  intro i packet sent pair _ cell found via other
  obtain ⟨connected, -⟩ := handle_dvPacket sent
  exact absurd ((h pair.1 cell found ⟨i, connected, via.symm⟩).trans via) other

/-! ### Changes of one route -/

theorem NoTransit.setCell (h : r.NoTransit)
    (direct : r.ConnectedTo cell.nextHop → dest = cell.nextHop) : (r.setCell dest cell).NoTransit := by
  intro d cell' found connected
  rw [setCell_dvMap] at found
  split_ifs at found with here
  · cases found
    exact here.trans (direct connected)
  · exact h d cell' found connected

theorem NoTransit.install (h : r.NoTransit)
    (direct : r.ConnectedTo cell.nextHop → dest = cell.nextHop) : (r.install dest cell).NoTransit :=
  h.setCell direct

theorem NoTransit.drop (h : r.NoTransit) (dest : ℕ) : (r.drop dest).NoTransit := by
  intro d cell' found connected
  rw [drop_dvMap] at found
  split_ifs at found
  exact h d cell' found connected

/-- Routes stay, and no more ports are connected. -/
theorem NoTransit.mono (h : r.NoTransit) (dvMap : s.dvMap = r.dvMap)
    (connected : ∀ n, s.ConnectedTo n → r.ConnectedTo n) : s.NoTransit := by
  intro dest cell found via
  rw [dvMap] at found
  exact h dest cell found (connected _ via)

/-! ### DV packets -/

/-- While the pairs of a DV packet are handled, routes to third routers stay as they
were when the packet came from a connected neighbour. -/
structure Settled (r : Router) (source : ℕ) (u : Update) : Prop where
  same : r.SameLinks u.router
  noTransit : u.router.NoTransit
  kept : r.ConnectedTo source → ∀ dest : ℕ, dest ≠ source → u.router.dvMap[dest]? = r.dvMap[dest]?

theorem Settled.reroute {source : ℕ} {u : Update} (h : Settled r source u)
    (direct : r.ConnectedTo cell.nextHop → dest = cell.nextHop)
    (kept : r.ConnectedTo source → dest = source) : Settled r source (u.reroute dest cell) := by
  refine ⟨h.same.trans ⟨rfl, rfl, rfl, rfl, rfl⟩, h.noTransit.install fun via => direct ?_, ?_⟩
  · unfold ConnectedTo at via ⊢
    rwa [h.same.ports] at via
  · intro connected d other
    refine (install_dvMap ..).trans ?_
    rw [if_neg (fun here => other (here.trans (kept connected)))]
    exact h.kept connected d other

theorem Settled.withdraw {source : ℕ} {u : Update} (h : Settled r source u)
    (kept : r.ConnectedTo source → dest = source) : Settled r source (u.withdraw dest) := by
  refine ⟨h.same.trans ⟨rfl, rfl, rfl, rfl, rfl⟩, h.noTransit.drop dest, ?_⟩
  intro connected d other
  refine (drop_dvMap ..).trans ?_
  rw [if_neg (fun here => other (here.trans (kept connected)))]
  exact h.kept connected d other

theorem Settled.recvPair {now source link cost : ℕ} {u : Update} (h : Settled r source u)
    (self : r.dvMap[r.routerId]? = none)
    (worse : r.ConnectedTo source → cost ≠ infinityCost → dest = source ∨ dest = r.routerId ∨
      ∃ cell, r.dvMap[dest]? = some cell ∧ cell.cost ≤ (cost + link) % 2 ^ 32) :
    Settled r source (recvPair now source link u (dest, cost)) := by
  generalize outcome : Router.recvPair now source link u (dest, cost) = v
  have result := recvPair_result now source link u dest cost
  rw [outcome] at result
  -- a route through a connected sender is the route to it
  have transit : ∀ cell, u.router.dvMap[dest]? = some cell → source = cell.nextHop →
      r.ConnectedTo source → dest = source := by
    rintro cell found via connected
    rw [via]
    refine h.noTransit dest cell found ?_
    unfold ConnectedTo at connected ⊢
    rw [h.same.ports, ← via]
    exact connected
  cases result with
  | ignored => exact h
  | added finite absent other =>
    -- a connected sender was to offer nothing for a third router without a route
    have own : r.ConnectedTo source → dest = source := by
      intro connected
      by_contra third
      rw [h.kept connected dest third] at absent
      rcases worse connected finite with here | here | ⟨cell, found, -⟩
      · exact third here
      · exact other (here.trans h.same.routerId.symm)
      · rw [absent] at found
        cases found
    exact h.reroute own own
  | adopted finite found better =>
    have own : r.ConnectedTo source → dest = source := by
      intro connected
      by_contra third
      -- nor anything cheaper for one that has a route
      have old := found
      rw [h.kept connected dest third] at old
      rcases worse connected finite with here | rfl | ⟨cell', found', bound⟩
      · exact third here
      · rw [self] at old
        cases old
      · cases old.symm.trans found'
        rcases better with less | ⟨via, -⟩
        · exact absurd less (not_lt.mpr bound)
        · exact third (transit _ found via connected)
    exact h.reroute own own
  | direct found via => exact h.reroute (fun _ => rfl) (transit _ found via)
  | withdrawn _ found via => exact h.withdraw (transit _ found via)
  | told => exact ⟨h.same, h.noTransit, h.kept⟩

theorem Settled.recvPairs {now source link : ℕ} {pairs : List (ℕ × ℕ)} {u : Update}
    (h : Settled r source u) (self : r.dvMap[r.routerId]? = none)
    (worse : r.ConnectedTo source → ∀ pair ∈ pairs, pair.2 ≠ infinityCost →
      pair.1 = source ∨ pair.1 = r.routerId ∨
        ∃ cell, r.dvMap[pair.1]? = some cell ∧ cell.cost ≤ (pair.2 + link) % 2 ^ 32) :
    Settled r source (pairs.foldl (Router.recvPair now source link) u) := by
  induction pairs generalizing u with
  | nil => exact h
  | cons pair pairs ih =>
    refine ih (h.recvPair self fun connected => worse connected pair List.mem_cons_self) ?_
    exact fun connected p member => worse connected p (List.mem_cons_of_mem _ member)

theorem ConnectedTo.learnNeighbor {port n junk : ℕ} {packet : DVPacket} :
    (r.learnNeighbor port packet junk).ConnectedTo n ↔ r.ConnectedTo n := by
  unfold Router.learnNeighbor
  split_ifs <;> rfl

theorem NoTransit.recvDV {packet : DVPacket} (h : r.NoTransit) (self : r.dvMap[r.routerId]? = none)
    (known : r.ConnectedTo packet.source → r.Knows packet.source) {now port junk : ℕ}
    (kept : r.KeepsDirect (.recv now port (.dv packet) junk)) :
    (r.recvDV now port packet junk).router.NoTransit := by
  have start : Settled (r.learnNeighbor port packet junk) packet.source
      ⟨r.learnNeighbor port packet junk, []⟩ :=
    ⟨.refl _, h.mono (learnNeighbor_dvMap ..) fun _ => ConnectedTo.learnNeighbor.mp, fun _ _ _ => rfl⟩
  refine (start.recvPairs (by simpa using self) ?_).noTransit
  intro connected pair member finite
  have old := ConnectedTo.learnNeighbor.mp connected
  rw [learnNeighbor_of_knows (known old)]
  exact kept old pair member finite

/-! ### PONG packets -/

theorem NoTransit.connect (h : r.NoTransit) {now port src rrt : ℕ}
    (kept : ∀ (dest : ℕ) cell, r.dvMap[dest]? = some cell → cell.nextHop = src → dest = src) :
    (r.connect now port src rrt).NoTransit := by
  rintro dest cell found ⟨i, connected, leads⟩
  by_cases via : cell.nextHop = src
  · exact (kept dest cell found via).trans via.symm
  · have away : i ≠ port := by
      rintro rfl
      simp only [Router.connect, if_true] at leads
      exact via leads.symm
    simp only [Router.connect, if_neg away] at connected leads
    -- a port that led to `src` before is closed and connects nobody
    by_cases stale : (r.ports i).toId = src
    · rw [if_pos stale] at connected
      cases connected
    · rw [if_neg stale] at connected leads
      exact h dest cell found ⟨i, connected, leads⟩

theorem NoTransit.repriceEntry {now src rrt diff : ℕ} {disconnected : Bool} {u : Update}
    (h : u.router.NoTransit) (dest : ℕ) :
    (Router.repriceEntry now src rrt diff disconnected u dest).router.NoTransit := by
  unfold Router.repriceEntry
  cases found : u.router.dvMap[dest]? with
  | none => exact h
  | some cell =>
    dsimp only
    split_ifs with via direct
    · cases u.router.directNeighbors[dest]? with
      | none => exact h.setCell (h dest cell found)
      | some near =>
        dsimp only
        split_ifs
        · exact h.install fun _ => rfl
        · exact h.setCell (h dest cell found)
    · exact h.install fun _ => direct.1
    · exact h
    · exact h

theorem NoTransit.touchEntry (h : r.NoTransit) (now src dest : ℕ) :
    (r.touchEntry now src dest).NoTransit := by
  rcases touchEntry_eq now src r dest with same | ⟨cell, found, touched⟩
  · rwa [same]
  · rw [touched]
    exact h.setCell (h dest cell found)

theorem NoTransit.handlePong (h : r.NoTransit) {now port src time : ℕ}
    (kept : ∀ (dest : ℕ) cell, r.dvMap[dest]? = some cell → cell.nextHop = src → dest = src) :
    (r.handlePong now port src time).router.NoTransit := by
  have loop : ((r.connect now port src (sub32 now time)).updateRoutes now src (sub32 now time)
      (sub32 (sub32 now time) (r.ports port).cost) (!(r.ports port).connected)).router.NoTransit := by
    unfold updateRoutes
    split_ifs
    · exact List.foldlRecOn (motive := fun u : Update => u.router.NoTransit) _ _ (h.connect kept)
        fun _ hu dest _ => hu.repriceEntry dest
    · exact List.foldlRecOn (motive := NoTransit) _ _ (h.connect kept)
        fun _ hs dest _ => hs.touchEntry now src dest
  unfold Router.handlePong addNeighbor
  dsimp only
  split_ifs
  · exact loop
  · exact loop.install fun _ => rfl

/-! ### Expiry -/

theorem NoTransit.deleteRoute {now : ℕ} {u : Update} (h : u.router.NoTransit) (dest : ℕ) :
    (Router.deleteRoute now u dest).router.NoTransit := by
  unfold Router.deleteRoute
  cases u.router.directNeighbors[dest]? with
  | none => exact h.drop dest
  | some direct => exact h.install fun _ => rfl

theorem NoTransit.refreshDV (h : r.NoTransit) (now : ℕ) : (r.refreshDV now).router.NoTransit := by
  obtain ⟨t, expired, loops⟩ := refreshDV_loops now r
  -- closing ports leaves fewer neighbours, and a lost route goes back to a direct link
  have closed : t.1.NoTransit := by
    refine h.mono expired.dvMap fun n => ?_
    rintro ⟨i, connected, leads⟩
    rw [expired.ports] at connected leads
    split_ifs at connected leads
    · cases connected
    · exact ⟨i, connected, leads⟩
  rw [loops]
  have deleted : (t.2.foldl (Router.deleteRoute now) ⟨t.1, []⟩).router.NoTransit :=
    List.foldlRecOn (motive := fun u : Update => u.router.NoTransit) _ _ closed
      fun _ hu dest _ => hu.deleteRoute dest
  refine List.foldlRecOn (motive := fun u : Update => u.router.NoTransit) _ _ deleted
    fun u hu dest _ => ?_
  unfold expireEntry
  cases u.router.dvMap[dest]? with
  | none => exact hu
  | some cell =>
    dsimp only
    split_ifs
    · exact hu.deleteRoute dest
    · exact hu

/-! ### Whole calls -/

theorem NoTransit.handle (h : r.NoTransit) (coherent : r.Coherent site) (known : r.PortsKnown)
    {event : Event} (kept : r.KeepsDirect event) : (r.handle event).1.NoTransit := by
  apply coherent.routed.handle (I := NoTransit) h
  case pong =>
    rintro now port source dest time junk rfl
    exact h.handlePong kept
  case dv =>
    rintro now port packet junk rfl
    refine h.recvDV coherent.routed.self ?_ kept
    rintro ⟨i, connected, leads⟩
    exact leads ▸ known i connected
  case expire => exact fun now _ => h.refreshDV now

end Router

/-- In every run in which no PONG comes from the next hop of a third router and no
connected neighbour offers a better route to a third router, every DV packet is sent
with poison reverse. -/
theorem Site.poisonReverse_of_direct (site : Site) {events : List Event}
    (direct : EachStep site.step (fun r event _ => r.KeepsDirect event) site.start events) :
    EachStep site.step (fun r event s => s.PoisonReverse (r.handle event).2) site.start events := by
  have moved : ∀ (r : Router) event s, (r.Coherent site ∧ r.PortsKnown ∧ r.NoTransit) →
      site.step r event = some s → r.KeepsDirect event →
        s = (r.handle event).1 ∧ s.Coherent site ∧ s.PortsKnown ∧ s.NoTransit := by
    rintro r event s ⟨coherent, known, noTransit⟩ next kept
    obtain ⟨admitted, rfl⟩ := Site.step_eq_some.mp next
    exact ⟨rfl, coherent.handle admitted, known.handle coherent admitted,
      noTransit.handle coherent known kept⟩
  have start : site.start.Coherent site ∧ site.start.PortsKnown ∧ site.start.NoTransit :=
    ⟨.start site, by simp [Router.PortsKnown, start, Router.init],
      by simp [Router.NoTransit, start, Router.init]⟩
  refine EachStep.imp_of_invariant (fun r event s inv next kept => (moved r event s inv next kept).2)
    (fun r event s inv next kept => ?_) start direct
  obtain ⟨rfl, -, -, noTransit⟩ := moved r event s inv next kept
  exact noTransit.poisonReverse

/-- Router 1 learns a route to 3 from its neighbour 2 and at once offers it back to 2. -/
theorem twoLinks_offers_back : ¬ EachStep twoLinks.step
    (fun r event s => s.PoisonReverse (r.handle event).2) twoLinks.start
    [.recv 10 0 (.pong 2 1 0) 0, .recv 20 0 (.dv ⟨12, 2, 1, [(3, 5)]⟩) 0] := by
  intro each
  obtain ⟨-, rest⟩ := each _ rfl
  obtain ⟨poisoned, -⟩ := rest _ rfl
  have finite := poisoned 0 ⟨12, 1, 2, [(3, 15)]⟩ (by decide +kernel) (3, 15) (by decide)
    ⟨2, 15, 20⟩ (by decide +kernel) (by decide +kernel) (by decide +kernel)
  exact absurd finite (by decide)

/-- Router 2 offers its neighbour 1 a route to 3 that is no better than the link to 3, and nothing
is offered back. -/
theorem twoLinks_poisonReverse : EachStep twoLinks.step
    (fun r event s => s.PoisonReverse (r.handle event).2) twoLinks.start
    [.recv 10 0 (.pong 2 1 0) 0, .recv 12 1 (.pong 3 1 4) 0,
      .recv 20 0 (.dv ⟨16, 2, 1, [(1, 10), (3, 5)]⟩) 0] := by
  have kept : EachStep twoLinks.step (fun r event _ => r.KeepsDirect event) twoLinks.start
      [.recv 10 0 (.pong 2 1 0) 0, .recv 12 1 (.pong 3 1 4) 0,
        .recv 20 0 (.dv ⟨16, 2, 1, [(1, 10), (3, 5)]⟩) 0] := by
    intro s first
    refine ⟨fun dest cell found => ?_, fun t second => ⟨fun dest cell found => ?_, ?_⟩⟩
    · simp [Site.start, Router.init] at found
    · obtain ⟨-, rfl⟩ := Site.step_eq_some.mp first
      have table : (twoLinks.start.handle (.recv 10 0 (.pong 2 1 0) 0)).1.dvMap.toList =
          [(2, ⟨2, 10, 10⟩)] := by decide +kernel
      have member := Std.ExtTreeMap.mem_toList_iff_getElem?_eq_some.mpr found
      rw [table, List.mem_singleton] at member
      cases member
      decide
    · obtain ⟨-, rfl⟩ := Site.step_eq_some.mp first
      obtain ⟨-, rfl⟩ := Site.step_eq_some.mp second
      refine fun u _ => ⟨fun _ pair member finite => ?_, trivial⟩
      -- one pair is about the router itself, the other one costs more than the link
      rw [show DVPacket.received ⟨16, 2, 1, [(1, 10), (3, 5)]⟩ = [(1, 10), (3, 5)] by decide,
        List.mem_cons, List.mem_singleton] at member
      rcases member with rfl | rfl
      · exact .inr (.inl (by decide +kernel))
      · exact .inr (.inr ⟨⟨3, 8, 12⟩, by decide +kernel, by decide +kernel⟩)
  exact twoLinks.poisonReverse_of_direct kept

end ComputerNetworks.Routing
