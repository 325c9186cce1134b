import ComputerNetworks.Routing.Announcements

/-!
# DV packets, one destination at a time

A pair of a DV packet is about one destination: it looks at the links and at one
entry, and changes no other. What a packet does to an entry can therefore be read off
its pairs for that destination.
-/

namespace ComputerNetworks.Routing

/-- Next hop and cost of an entry. -/
def DVCell.route (cell : DVCell) : ℕ × ℕ := (cell.nextHop, cell.cost)

namespace Router

variable {now source link dest cost : ℕ} {u : Update}

/-- A pair changes the entry of its destination only. -/
theorem recvPair_dvMap_of_ne {d : ℕ} (other : d ≠ dest) :
    (recvPair now source link u (dest, cost)).router.dvMap[d]? = u.router.dvMap[d]? := by
  generalize outcome : recvPair now source link u (dest, cost) = v
  have result := recvPair_result now source link u dest cost
  rw [outcome] at result
  cases result with
  | ignored => rfl
  | added => exact (install_dvMap ..).trans (if_neg other)
  | adopted => exact (install_dvMap ..).trans (if_neg other)
  | direct => exact (install_dvMap ..).trans (if_neg other)
  | withdrawn => exact (drop_dvMap ..).trans (if_neg other)
  | told => rfl

theorem recvPair_sameLinks (now source link : ℕ) (u : Update) (pair : ℕ × ℕ) :
    u.router.SameLinks (recvPair now source link u pair).router := by
  obtain ⟨dest, cost⟩ := pair
  generalize outcome : recvPair now source link u (dest, cost) = v
  have result := recvPair_result now source link u dest cost
  rw [outcome] at result
  cases result <;> exact ⟨rfl, rfl, rfl, rfl, rfl⟩

theorem recvPairs_sameLinks (now source link : ℕ) (pairs : List (ℕ × ℕ)) (u : Update) :
    u.router.SameLinks (pairs.foldl (recvPair now source link) u).router := by
  induction pairs generalizing u with
  | nil => exact .refl _
  | cons pair pairs ih => exact (recvPair_sameLinks now source link u pair).trans (ih _)

/-- After a finite pair for another router there is a route no worse than the pair. -/
theorem recvPair_within (now source link : ℕ) (finite : cost ≠ infinityCost) (other : dest ≠ u.router.routerId) :
    ∃ cell, (recvPair now source link u (dest, cost)).router.dvMap[dest]? = some cell ∧
      cell.cost ≤ (cost + link) % 2 ^ 32 := by
  have rerouted : ∀ cell : DVCell, cell.cost ≤ (cost + link) % 2 ^ 32 →
      ∃ cell', (u.reroute dest cell).router.dvMap[dest]? = some cell' ∧
        cell'.cost ≤ (cost + link) % 2 ^ 32 :=
    fun cell le => ⟨cell, (install_dvMap ..).trans (if_pos rfl), le⟩
  unfold recvPair
  dsimp only
  cases found : u.router.dvMap[dest]? with
  | none =>
    dsimp only
    rw [if_pos ⟨finite, other⟩]
    exact rerouted _ (Nat.le_refl _)
  | some cell =>
    dsimp only
    rw [if_pos finite]
    split_ifs with better via
    · exact rerouted _ (Nat.le_refl _)
    · cases direct : u.router.directNeighbors[dest]? with
      | none => exact rerouted _ (Nat.le_refl _)
      | some near =>
        dsimp only
        split_ifs with less
        · exact rerouted _ (Nat.le_refl _)
        · exact rerouted _ (not_lt.mp less)
    · exact ⟨cell, found, not_lt.mp better⟩

/-- A finite pair from the next hop sets the route to the smaller of the sum and the
direct link. -/
theorem recvPair_via (now link : ℕ) {cell : DVCell} (finite : cost ≠ infinityCost)
    (found : u.router.dvMap[dest]? = some cell) (via : source = cell.nextHop) :
    (recvPair now source link u (dest, cost)).router.dvMap[dest]? =
        some ⟨source, (cost + link) % 2 ^ 32, now⟩ ∨
      ∃ direct, u.router.directNeighbors[dest]? = some direct ∧
        direct.cost ≤ (cost + link) % 2 ^ 32 ∧
        (recvPair now source link u (dest, cost)).router.dvMap[dest]? =
          some ⟨dest, direct.cost, now⟩ := by
  have rerouted : ∀ cell : DVCell, (u.reroute dest cell).router.dvMap[dest]? = some cell :=
    fun cell => (install_dvMap ..).trans (if_pos rfl)
  unfold recvPair
  dsimp only
  rw [found]
  dsimp only
  rw [if_pos finite, if_pos via]
  split_ifs with better
  · exact .inl (rerouted _)
  · cases direct : u.router.directNeighbors[dest]? with
    | none => exact .inl (rerouted _)
    | some near =>
      dsimp only
      split_ifs with less
      · exact .inl (rerouted _)
      · exact .inr ⟨near, rfl, not_lt.mp less, rerouted _⟩

/-- Pairs for other destinations leave an entry alone. -/
theorem recvPairs_dvMap_of_forall_ne {d : ℕ} {pairs : List (ℕ × ℕ)} (u : Update)
    (others : ∀ pair ∈ pairs, pair.1 ≠ d) :
    (pairs.foldl (recvPair now source link) u).router.dvMap[d]? = u.router.dvMap[d]? := by
  induction pairs generalizing u with
  | nil => rfl
  | cons pair pairs ih =>
    refine (ih _ fun p member => others p (List.mem_cons_of_mem _ member)).trans ?_
    exact recvPair_dvMap_of_ne (others pair List.mem_cons_self).symm

/-- If a packet lists a destination once, it does to the entry what that pair does. -/
theorem recvPairs_dvMap_of_nodup (now source link : ℕ) {pairs : List (ℕ × ℕ)} (nodup : (pairs.map Prod.fst).Nodup)
    (u : Update) (member : (dest, cost) ∈ pairs) :
    ∃ v : Update, v.router.dvMap[dest]? = u.router.dvMap[dest]? ∧ u.router.SameLinks v.router ∧
      (pairs.foldl (recvPair now source link) u).router.dvMap[dest]? =
        (recvPair now source link v (dest, cost)).router.dvMap[dest]? := by
  obtain ⟨before, after, rfl⟩ := List.append_of_mem member
  rw [List.map_append, List.map_cons, List.nodup_append, List.nodup_cons] at nodup
  obtain ⟨-, ⟨fresh, -⟩, apart⟩ := nodup
  refine ⟨before.foldl (recvPair now source link) u,
    recvPairs_dvMap_of_forall_ne u fun pair listed same => ?_, recvPairs_sameLinks .., ?_⟩
  · exact apart pair.1 (List.mem_map_of_mem listed) dest List.mem_cons_self same
  · rw [List.foldl_append, List.foldl_cons]
    refine recvPairs_dvMap_of_forall_ne _ fun pair listed same => fresh ?_
    exact List.mem_map.mpr ⟨pair, listed, same⟩

/-- The destinations of a full table are distinct. -/
theorem nodup_fullTable (r : Router) : (r.fullTable.map Advert.dest).Nodup := by
  have keys : r.fullTable.map Advert.dest = r.dvMap.keys := by
    rw [fullTable, List.map_map, Std.ExtTreeMap.map_fst_toList_eq_keys.symm]
    rfl
  rw [keys]
  exact r.dvMap.nodup_keys

end Router

end ComputerNetworks.Routing
