import ComputerNetworks.Routing.Coherence

/-!
# Bounds on the stored costs

A bound on the costs in the tables and in `new_packet` survives every operation
whose new costs obey it: the round trip time of a PONG, the repriced costs of the
routes through its sender, and the sums that `recvDV` adopts. The bound is a
parameter; 16 bits make every advert exact, `infinityCost` makes it finite as well.
-/

namespace ComputerNetworks.Routing

/-- Every stored cost is below `bound`. -/
structure Router.CostsBelow (bound : ℕ) (r : Router) : Prop where
  routes : ∀ (dest : ℕ) cell, r.dvMap[dest]? = some cell → cell.cost < bound
  links : ∀ (n : ℕ) direct, r.directNeighbors[n]? = some direct → direct.cost < bound

/-- Every cost stored or pushed is below `bound`. -/
structure Update.CostsBelow (bound : ℕ) (u : Update) : Prop where
  router : u.router.CostsBelow bound
  pushed : ∀ dest cost, .route dest cost ∈ u.newPacket → cost < bound

variable {bound : ℕ} {u v : Update} {r : Router} {dest : ℕ} {cell : DVCell}

open Router

/-! ### Moves -/

theorem Router.CostsBelow.start (h : r.CostsBelow bound) : (⟨r, []⟩ : Update).CostsBelow bound :=
  ⟨h, by simp⟩

theorem Router.CostsBelow.setCell (h : r.CostsBelow bound) (cost : cell.cost < bound) :
    (r.setCell dest cell).CostsBelow bound := by
  refine ⟨fun d cell' found => ?_, h.links⟩
  rw [setCell_dvMap] at found
  split_ifs at found
  · cases found
    exact cost
  · exact h.routes d cell' found

namespace Update

theorem CostsBelow.push (h : u.CostsBelow bound) {s : Router} (router : s.CostsBelow bound)
    {cost : ℕ} (small : cost < bound) :
    (⟨s, u.newPacket ++ [.route dest cost]⟩ : Update).CostsBelow bound := by
  refine ⟨router, fun d c member => ?_⟩
  rcases List.mem_append.mp member with old | new
  · exact h.pushed d c old
  · cases List.mem_singleton.mp new
    exact small

theorem CostsBelow.tell (h : u.CostsBelow bound) (found : u.router.dvMap[dest]? = some cell) :
    (u.tell (.route dest cell.cost)).CostsBelow bound :=
  h.push h.router (h.router.routes dest cell found)

theorem CostsBelow.reprice (h : u.CostsBelow bound) (cost : cell.cost < bound) :
    (u.reprice dest cell).CostsBelow bound :=
  h.push (h.router.setCell cost) cost

theorem CostsBelow.reroute (h : u.CostsBelow bound) (cost : cell.cost < bound) :
    (u.reroute dest cell).CostsBelow bound :=
  h.push (s := u.router.install dest cell) ⟨(h.router.setCell cost).routes, h.router.links⟩ cost

theorem CostsBelow.withdraw (h : u.CostsBelow bound) : (u.withdraw dest).CostsBelow bound := by
  refine ⟨⟨fun d cell found => ?_, h.router.links⟩, fun d c member => ?_⟩
  · change (u.router.drop dest).dvMap[d]? = some cell at found
    rw [drop_dvMap] at found
    split_ifs at found
    exact h.router.routes d cell found
  · rcases List.mem_append.mp member with old | new
    · exact h.pushed d c old
    · cases List.mem_singleton.mp new

end Update

/-! ### Rounds that look at one entry -/

/-- A loop over different destinations whose rounds change only their own entry: each
round finds its entry as it was before the loop. -/
theorem foldl_own {f : Update → ℕ → Update} {I : Update → Prop}
    (own : ∀ (v : Update) (dest d : ℕ), d ≠ dest →
      (f v dest).router.dvMap[d]? = v.router.dvMap[d]?)
    {dests : List ℕ} (nodup : dests.Nodup)
    (round : ∀ v, ∀ dest ∈ dests, v.router.dvMap[dest]? = u.router.dvMap[dest]? → I v → I (f v dest))
    (start : I u) : I (dests.foldl f u) := by
  suffices general : ∀ v : Update, (∀ dest ∈ dests, v.router.dvMap[dest]? = u.router.dvMap[dest]?) →
      I v → I (dests.foldl f v) from general u (fun _ _ => rfl) start
  induction dests with
  | nil => exact fun v _ h => h
  | cons dest dests ih =>
    intro v same h
    obtain ⟨fresh, nodup⟩ := List.nodup_cons.mp nodup
    refine ih nodup (fun w d member => round w d (List.mem_cons_of_mem _ member)) (f v dest)
      (fun d member => ?_) (round v dest List.mem_cons_self (same dest List.mem_cons_self) h)
    rw [own v dest d (by rintro rfl; exact fresh member)]
    exact same d (List.mem_cons_of_mem _ member)

namespace Router

/-- The PONG loop changes only the entry it stands at. -/
theorem repriceEntry_own (now src rrt diff : ℕ) (disconnected : Bool) (v : Update) (dest d : ℕ)
    (other : d ≠ dest) :
    (repriceEntry now src rrt diff disconnected v dest).router.dvMap[d]? = v.router.dvMap[d]? := by
  unfold repriceEntry
  cases v.router.dvMap[dest]? with
  | none => rfl
  | some cell =>
    dsimp only
    split_ifs
    · cases v.router.directNeighbors[dest]? with
      | none => simp [Update.reprice, other]
      | some direct =>
        dsimp only
        split_ifs <;> simp [Update.reprice, Update.reroute, other]
    · simp [Update.reroute, other]
    · rfl
    · rfl

theorem repriceEntry_costsBelow {now src rrt diff : ℕ} {disconnected : Bool}
    (h : u.CostsBelow bound) (rtt : rrt < bound) (fits : ∀ cell, u.router.dvMap[dest]? = some cell →
      cell.nextHop = src → u.router.directNeighbors[dest]? = none →
        (cell.cost + diff) % 2 ^ 16 < bound) :
    (repriceEntry now src rrt diff disconnected u dest).CostsBelow bound := by
  unfold repriceEntry
  cases found : u.router.dvMap[dest]? with
  | none => exact h
  | some cell =>
    dsimp only
    split_ifs with via
    · cases near : u.router.directNeighbors[dest]? with
      | none => exact h.reprice (fits cell found via near)
      | some direct =>
        dsimp only
        split_ifs
        · exact h.reroute (h.router.links dest direct near)
        · exact h.reprice (h.router.routes dest cell found)
    · exact h.reroute rtt
    · exact h.tell found
    · exact h

theorem repriceEntry_directNeighbors (now src rrt diff : ℕ) (disconnected : Bool) (v : Update)
    (dest : ℕ) : (repriceEntry now src rrt diff disconnected v dest).router.directNeighbors =
      v.router.directNeighbors := by
  unfold repriceEntry
  cases v.router.dvMap[dest]? with
  | none => rfl
  | some cell =>
    dsimp only
    split_ifs
    · cases v.router.directNeighbors[dest]? with
      | none => rfl
      | some direct =>
        dsimp only
        split_ifs <;> rfl
    · rfl
    · rfl
    · rfl

/-- A pair whose sum is adopted must obey the bound. A better sum does so anyway. -/
theorem recvPair_costsBelow {now source link cost : ℕ} (h : u.CostsBelow bound)
    (fits : cost ≠ infinityCost → (u.router.dvMap[dest]? = none ∧ dest ≠ u.router.routerId ∨
      ∃ cell, u.router.dvMap[dest]? = some cell ∧ source = cell.nextHop) →
        (cost + link) % 2 ^ 32 < bound) :
    (recvPair now source link u (dest, cost)).CostsBelow bound := by
  generalize outcome : recvPair now source link u (dest, cost) = v
  have result := recvPair_result now source link u dest cost
  rw [outcome] at result
  cases result with
  | ignored => exact h
  | added finite absent other => exact h.reroute (fits finite (.inl ⟨absent, other⟩))
  | adopted finite found better =>
    refine h.reroute ?_
    rcases better with less | ⟨via, -⟩
    · exact less.trans (h.router.routes _ _ found)
    · exact fits finite (.inr ⟨_, found, via⟩)
  | direct found via near => exact h.reroute (h.router.links _ _ near)
  | withdrawn => exact h.withdraw
  | told poison found => exact (h.tell found).tell found

theorem deleteRoute_costsBelow (now : ℕ) (h : u.CostsBelow bound) (dest : ℕ) :
    (deleteRoute now u dest).CostsBelow bound := by
  unfold deleteRoute
  cases near : u.router.directNeighbors[dest]? with
  | none => exact h.withdraw
  | some direct => exact h.reroute (h.router.links dest direct near)

theorem expireEntry_costsBelow (now : ℕ) (h : u.CostsBelow bound) (dest : ℕ) :
    (expireEntry now u dest).CostsBelow bound := by
  unfold expireEntry
  cases u.router.dvMap[dest]? with
  | none => exact h
  | some cell =>
    dsimp only
    split_ifs
    · exact deleteRoute_costsBelow now h dest
    · exact h

/-! ### Operations -/

theorem CostsBelow.learnNeighbor (h : r.CostsBelow bound) {port : ℕ} {packet : DVPacket} {junk : ℕ}
    (link : ¬ r.Knows packet.source →
      (r.learnNeighbor port packet junk).linkCost packet.source < bound) :
    (r.learnNeighbor port packet junk).CostsBelow bound := by
  by_cases known : r.Knows packet.source
  · rwa [learnNeighbor_of_knows known]
  · obtain ⟨cost, learnt⟩ := learnNeighbor_of_not_knows known port junk
    have small := link known
    rw [learnt] at small ⊢
    refine ⟨h.routes, fun n direct found => ?_⟩
    rw [Table.getElem?_insert] at found
    split_ifs at found
    · cases found
      simpa [linkCost, Table.getElem?_insert] using small
    · exact h.links n direct found

theorem CostsBelow.connect (h : r.CostsBelow bound) {now port src rrt : ℕ} (rtt : rrt < bound) :
    (r.connect now port src rrt).CostsBelow bound := by
  refine ⟨h.routes, fun n direct found => ?_⟩
  rw [connect_directNeighbors] at found
  split_ifs at found
  · cases found
    exact rtt
  · exact h.links n direct found

theorem CostsBelow.touchEntries (h : r.CostsBelow bound) (now src : ℕ) (dests : List ℕ) :
    (dests.foldl (touchEntry now src) r).CostsBelow bound := by
  refine List.foldlRecOn (motive := CostsBelow bound) _ _ h fun s hs dest _ => ?_
  rcases touchEntry_eq now src s dest with same | ⟨cell, found, touched⟩
  · rwa [same]
  · rw [touched]
    exact hs.setCell (hs.routes dest cell found)

theorem updateRoutes_costsBelow {now src rrt diff : ℕ} {disconnected : Bool}
    (h : r.CostsBelow bound) (rtt : rrt < bound) (fits : ∀ (dest : ℕ) cell,
      r.dvMap[dest]? = some cell → cell.nextHop = src → r.directNeighbors[dest]? = none →
        (cell.cost + diff) % 2 ^ 16 < bound) :
    (r.updateRoutes now src rrt diff disconnected).CostsBelow bound := by
  unfold updateRoutes
  split_ifs
  · refine (foldl_own (u := ⟨r, []⟩) (I := fun v => v.CostsBelow bound ∧
      v.router.directNeighbors = r.directNeighbors) (repriceEntry_own now src rrt diff disconnected)
      r.dvMap.nodup_keys (fun v dest _ same inv => ⟨?_, ?_⟩) ⟨h.start, rfl⟩).1
    · refine repriceEntry_costsBelow inv.1 rtt fun cell found via far => ?_
      rw [same] at found
      rw [inv.2] at far
      exact fits dest cell found via far
    · rw [repriceEntry_directNeighbors, inv.2]
  · exact (h.touchEntries now src _).start

theorem mem_fullTable {cost : ℕ} : .route dest cost ∈ r.fullTable ↔
    ∃ cell, r.dvMap[dest]? = some cell ∧ cell.cost = cost := by
  simp only [fullTable, List.mem_map, Prod.exists, Std.ExtTreeMap.mem_toList_iff_getElem?_eq_some,
    Advert.route.injEq]
  constructor
  · rintro ⟨d, cell, found, rfl, rfl⟩
    exact ⟨cell, found, rfl⟩
  · rintro ⟨cell, found, rfl⟩
    exact ⟨dest, cell, found, rfl, rfl⟩

theorem addNeighbor_costsBelow {now src rrt : ℕ} (h : u.CostsBelow bound) (rtt : rrt < bound) :
    (addNeighbor now src rrt u).CostsBelow bound := by
  unfold addNeighbor
  split_ifs
  · exact h
  · have installed : (u.reroute src ⟨src, rrt, now⟩).CostsBelow bound := h.reroute rtt
    refine ⟨installed.router, fun d c member => ?_⟩
    rcases List.mem_append.mp member with old | new
    · exact h.pushed d c old
    · obtain ⟨cell, found, rfl⟩ := mem_fullTable.mp new
      exact installed.router.routes d cell found

/-- A PONG keeps the bound if the round trip time and the repriced costs obey it. -/
theorem handlePong_costsBelow {now port src time : ℕ} (h : r.CostsBelow bound)
    (rtt : sub32 now time < bound) (fits : ∀ (dest : ℕ) cell, r.dvMap[dest]? = some cell →
      cell.nextHop = src → dest ≠ src → r.directNeighbors[dest]? = none →
        (cell.cost + sub32 (sub32 now time) (r.ports port).cost) % 2 ^ 16 < bound) :
    (r.handlePong now port src time).CostsBelow bound := by
  refine addNeighbor_costsBelow (updateRoutes_costsBelow (h.connect rtt) rtt ?_) rtt
  intro dest cell found via far
  rw [connect_directNeighbors] at far
  split_ifs at far with here
  exact fits dest cell found via here far

/-- Expiry stores no new costs. -/
theorem refreshDV_costsBelow (h : r.CostsBelow bound) (now : ℕ) :
    (r.refreshDV now).CostsBelow bound := by
  obtain ⟨t, expired, loops⟩ := refreshDV_loops now r
  have closed : t.1.CostsBelow bound := ⟨expired.dvMap ▸ h.routes, fun n direct found =>
    h.links n direct ((expired.directNeighbors n direct).mp found).1⟩
  rw [loops]
  have deleted := List.foldlRecOn (motive := fun u : Update => u.CostsBelow bound) t.2
    (deleteRoute now) closed.start fun _ hu dest _ => deleteRoute_costsBelow now hu dest
  exact List.foldlRecOn (motive := fun u : Update => u.CostsBelow bound) _ _ deleted
    fun _ hu dest _ => expireEntry_costsBelow now hu dest

end Router

end ComputerNetworks.Routing
