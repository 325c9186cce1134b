import ComputerNetworks.Routing.Rounds

/-!
# A changed round trip time

A PONG with a new round trip time moves the cost of every route through its sender by
the difference, or the route to a direct link that is not dearer. A route that has a
dearer direct link is the exception: its cost stays as it was.
-/

namespace ComputerNetworks.Routing

namespace Router

/-- A router that gets a PONG from `n` on a connected port, whose cost `old` the routes
through `n` were built on. All costs fit in 16 bits, the new ones too. -/
structure Repriceable (r : Router) (port n old new : ℕ) : Prop where
  agrees : ∀ d : ℕ, r.forwardingTable[d]? = r.dvMap[d]?.map DVCell.nextHop
  connected : (r.ports port).connected = true
  toId : (r.ports port).toId = n
  portCost : (r.ports port).cost = old
  linkCost : r.directNeighbors[n]?.map NNCell.cost = some old
  near : ∀ (d : ℕ) direct cell, r.directNeighbors[d]? = some direct → r.dvMap[d]? = some cell →
    cell.cost ≤ direct.cost
  via : ∀ (d : ℕ) cell, r.dvMap[d]? = some cell → cell.nextHop = n → old ≤ cell.cost
  oldFits : old < 2 ^ 16
  newFits : new < 2 ^ 16
  cellFits : ∀ (d : ℕ) cell, r.dvMap[d]? = some cell → cell.cost < 2 ^ 16
  linkFits : ∀ (d : ℕ) direct, r.directNeighbors[d]? = some direct → direct.cost < 2 ^ 16
  sumFits : ∀ (d : ℕ) cell, r.dvMap[d]? = some cell → cell.nextHop = n →
    cell.cost - old + new < 2 ^ 16
  changed : new ≠ old

/-- The best route to `d` when the route through `n` costs `cost`. -/
def cheaper (links : Table NNCell) (n d cost : ℕ) : ℕ × ℕ :=
  match links[d]? with
  | some direct => if direct.cost ≤ cost then (d, direct.cost) else (n, cost)
  | none => (n, cost)

/-- The law of repricing, from a router `r` to the router `s` behind the PONG. -/
structure Repriced (r s : Router) (n old new : ℕ) : Prop where
  via : ∀ (d : ℕ) cell, r.dvMap[d]? = some cell → cell.nextHop = n →
    s.dvMap[d]?.map DVCell.route = some (cheaper s.directNeighbors n d (cell.cost - old + new))
  neighbor : ∃ cell, s.dvMap[n]? = some cell ∧ cell.cost ≤ new
  others : ∀ d : ℕ, d ≠ n → (∀ cell, r.dvMap[d]? = some cell → cell.nextHop ≠ n) →
    s.dvMap[d]?.map DVCell.route = r.dvMap[d]?.map DVCell.route

variable {r : Router} {now port n time old new : ℕ}

/-- Neither the difference modulo 2^32 nor the sum modulo 2^16 loses anything. -/
theorem reprice_exact {c : ℕ} (le : old ≤ c) (oldFits : old < 2 ^ 16) (newFits : new < 2 ^ 16)
    (sumFits : c - old + new < 2 ^ 16) : (c + sub32 new old) % 2 ^ 16 = c - old + new := by
  unfold sub32
  omega

theorem sub32_ne_zero (oldFits : old < 2 ^ 16) (newFits : new < 2 ^ 16) (changed : new ≠ old) :
    sub32 new old ≠ 0 := by
  unfold sub32
  omega

/-- The links behind the PONG. -/
theorem handlePong_directNeighbors (r : Router) (other : n ≠ r.routerId) :
    (r.handlePong now port n time).router.directNeighbors =
      (r.connect now port n (sub32 now time)).directNeighbors := by
  have same : (r.connect now port n (sub32 now time)).SameLinks
      (r.handlePong now port n time).router :=
    handlePong_keeps (fun _ _ moves same => same.trans moves.sameLinks) other (.refl _)
  exact same.directNeighbors

namespace Repriceable

/-- The entry of a destination behind the PONG. -/
theorem entry (h : r.Repriceable port n old new) (rtt : sub32 now time = new) (d : ℕ) :
    (r.handlePong now port n time).router.dvMap[d]? =
      if d = n ∧ r.dvMap[d]? = none then some ⟨n, new, now⟩
      else pongCell now n new (sub32 new old)
        (r.connect now port n new).directNeighbors d r.dvMap[d]? := by
  have changed := sub32_ne_zero h.oldFits h.newFits h.changed
  rw [handlePong_dvMap r now port n time (by rw [rtt, h.portCost]; exact changed), rtt, h.portCost]

/-- A route through `n` costs what the law says, unless there is a dearer direct link. -/
theorem entry_via (h : r.Repriceable port n old new) (rtt : sub32 now time = new) {d : ℕ}
    {cell : DVCell} (found : r.dvMap[d]? = some cell) (via : cell.nextHop = n) :
    (r.handlePong now port n time).router.dvMap[d]?.map DVCell.route =
      match (r.connect now port n new).directNeighbors[d]? with
      | some direct =>
        if direct.cost ≤ cell.cost - old + new then some (d, direct.cost) else some (n, cell.cost)
      | none => some (n, cell.cost - old + new) := by
  have exact_ := reprice_exact (h.via d cell found via) h.oldFits h.newFits (h.sumFits d cell found via)
  rw [h.entry rtt, if_neg (by rw [found]; exact fun both => nomatch both.2), found]
  unfold pongCell
  dsimp only
  rw [if_pos via, exact_]
  -- with a dearer direct link the code keeps the old cost
  cases (r.connect now port n new).directNeighbors[d]? with
  | none => exact congrArg (fun hop => some (hop, _)) via
  | some direct =>
    dsimp only
    split_ifs
    · rfl
    · exact congrArg (fun hop => some (hop, _)) via

/-- The entry of the sender costs at most the new round trip time. -/
theorem entry_neighbor (h : r.Repriceable port n old new) (rtt : sub32 now time = new) :
    ∃ cell, (r.handlePong now port n time).router.dvMap[n]? = some cell ∧ cell.cost ≤ new := by
  cases found : r.dvMap[n]? with
  | none =>
    refine ⟨⟨n, new, now⟩, ?_, Nat.le_refl new⟩
    rw [h.entry rtt, if_pos ⟨rfl, found⟩]
  | some cell =>
    have direct : (r.connect now port n new).directNeighbors[n]? = some ⟨new, port⟩ := by
      rw [connect_directNeighbors, if_pos rfl]
    by_cases via : cell.nextHop = n
    · have route := h.entry_via rtt found via
      -- the route is the direct link itself, and was priced at the old round trip time
      have lower := h.via n cell found via
      rw [direct] at route
      dsimp only at route
      rw [if_pos (Nat.le_add_left new _)] at route
      obtain ⟨cell', found', same⟩ := Option.map_eq_some_iff.mp route
      exact ⟨cell', found', (congrArg Prod.snd same).le⟩
    · rw [h.entry rtt, if_neg (by rw [found]; exact fun both => nomatch both.2), found]
      unfold pongCell
      dsimp only
      rw [if_neg via]
      split_ifs with better
      · exact ⟨_, rfl, Nat.le_refl new⟩
      · refine ⟨cell, rfl, ?_⟩
        have worse : ¬ new ≤ cell.cost := fun le => better ⟨rfl, le⟩
        omega

/-- No other entry changes. -/
theorem entry_others (h : r.Repriceable port n old new) (rtt : sub32 now time = new) {d : ℕ}
    (other : d ≠ n) (far : ∀ cell, r.dvMap[d]? = some cell → cell.nextHop ≠ n) :
    (r.handlePong now port n time).router.dvMap[d]? = r.dvMap[d]? := by
  rw [h.entry rtt, if_neg fun both => other both.1]
  cases found : r.dvMap[d]? with
  | none => rfl
  | some cell =>
    unfold pongCell
    dsimp only
    rw [if_neg (far cell found), if_neg fun better => other better.1]

/-- The law of repricing holds exactly when no route through `n` to another router has a
dearer direct link. -/
theorem repriced_iff (h : r.Repriceable port n old new) (other : n ≠ r.routerId)
    (rtt : sub32 now time = new) :
    r.Repriced (r.handlePong now port n time).router n old new ↔
      ∀ (d : ℕ) cell direct, d ≠ n → r.dvMap[d]? = some cell → cell.nextHop = n →
        r.directNeighbors[d]? = some direct → direct.cost ≤ cell.cost - old + new := by
  have links : (r.handlePong now port n time).router.directNeighbors =
      (r.connect now port n new).directNeighbors := rtt ▸ handlePong_directNeighbors r other
  constructor
  · intro law d cell direct apart found via near
    have near' : (r.connect now port n new).directNeighbors[d]? = some direct := by
      rw [connect_directNeighbors, if_neg apart, near]
    have promised := law.via d cell found via
    rw [h.entry_via rtt found via, links, cheaper, near'] at promised
    dsimp only at promised
    by_contra dearer
    rw [if_neg dearer, if_neg dearer] at promised
    -- the cost kept is not the one the law asks for
    have kept : cell.cost = cell.cost - old + new := congrArg Prod.snd (Option.some.inj promised)
    have lower := h.via d cell found via
    have changed := h.changed
    omega
  · intro cheap
    refine ⟨fun d cell found via => ?_, h.entry_neighbor rtt, fun d apart far => ?_⟩
    · rw [h.entry_via rtt found via, links, cheaper]
      cases near : (r.connect now port n new).directNeighbors[d]? with
      | none => rfl
      | some direct =>
        dsimp only
        have le : direct.cost ≤ cell.cost - old + new := by
          rw [connect_directNeighbors] at near
          split_ifs at near with here
          · obtain rfl := Option.some.inj near
            exact Nat.le_add_left new _
          · exact cheap d cell direct here found via near
        rw [if_pos le, if_pos le]
    · rw [h.entry_others rtt apart far]

end Repriceable

/-- Router 1 with links of cost 10 to 2 and of cost 100 to 3, which it reaches through 2. -/
def detour : Router :=
  { Router.init 2 1 .dv with
    ports := fun i =>
      if i = 0 then ⟨2, 10, 0, true⟩ else if i = 1 then ⟨3, 100, 9000, true⟩ else ⟨0, 0, 0, false⟩
    directNeighbors := ((∅ : Table NNCell).insert 2 ⟨10, 0⟩).insert 3 ⟨100, 1⟩
    forwardingTable := ((∅ : Table ℕ).insert 2 2).insert 3 2
    dvMap := ((∅ : Table DVCell).insert 2 ⟨2, 10, 0⟩).insert 3 ⟨2, 15, 0⟩ }

theorem detour_dvMap (d : ℕ) : detour.dvMap[d]? =
    if d = 3 then some ⟨2, 15, 0⟩ else if d = 2 then some ⟨2, 10, 0⟩ else none := by
  apply (Table.getElem?_insert ..).trans
  rw [Table.getElem?_insert, Std.ExtTreeMap.getElem?_empty]

theorem detour_directNeighbors (d : ℕ) : detour.directNeighbors[d]? =
    if d = 3 then some ⟨100, 1⟩ else if d = 2 then some ⟨10, 0⟩ else none := by
  apply (Table.getElem?_insert ..).trans
  rw [Table.getElem?_insert, Std.ExtTreeMap.getElem?_empty]

theorem detour_forwardingTable (d : ℕ) : detour.forwardingTable[d]? =
    if d = 3 then some 2 else if d = 2 then some 2 else none := by
  apply (Table.getElem?_insert ..).trans
  rw [Table.getElem?_insert, Std.ExtTreeMap.getElem?_empty]

theorem detour_route {d : ℕ} {cell : DVCell} (found : detour.dvMap[d]? = some cell) :
    d = 3 ∧ cell = ⟨2, 15, 0⟩ ∨ d = 2 ∧ cell = ⟨2, 10, 0⟩ := by
  rw [detour_dvMap] at found
  split_ifs at found with three two
  · exact .inl ⟨three, (Option.some.inj found).symm⟩
  · exact .inr ⟨two, (Option.some.inj found).symm⟩

theorem detour_link {d : ℕ} {direct : NNCell} (near : detour.directNeighbors[d]? = some direct) :
    d = 3 ∧ direct = ⟨100, 1⟩ ∨ d = 2 ∧ direct = ⟨10, 0⟩ := by
  rw [detour_directNeighbors] at near
  split_ifs at near with three two
  · exact .inl ⟨three, (Option.some.inj near).symm⟩
  · exact .inr ⟨two, (Option.some.inj near).symm⟩

theorem detour_repriceable (new : ℕ) (small : new < 2 ^ 15) (changed : new ≠ 10) :
    detour.Repriceable 0 2 10 new where
  agrees d := by
    rw [detour_forwardingTable, detour_dvMap]
    split_ifs <;> rfl
  connected := rfl
  toId := rfl
  portCost := rfl
  linkCost := by rw [detour_directNeighbors, if_neg (by decide), if_pos rfl]; rfl
  near d direct cell near found := by
    obtain ⟨rfl, rfl⟩ | ⟨rfl, rfl⟩ := detour_route found <;>
      obtain ⟨here, rfl⟩ | ⟨here, rfl⟩ := detour_link near <;> simp at here ⊢
  via d cell found _ := by
    obtain ⟨-, rfl⟩ | ⟨-, rfl⟩ := detour_route found <;> simp
  oldFits := by decide
  newFits := by omega
  cellFits d cell found := by
    obtain ⟨-, rfl⟩ | ⟨-, rfl⟩ := detour_route found <;> simp
  linkFits d direct near := by
    obtain ⟨-, rfl⟩ | ⟨-, rfl⟩ := detour_link near <;> simp
  sumFits d cell found _ := by
    obtain ⟨-, rfl⟩ | ⟨-, rfl⟩ := detour_route found <;> dsimp only <;> omega
  changed := changed

/-- When the link to 2 slows down to 96, the law holds: both routes end on direct links. -/
theorem detour_slower : detour.Repriced (detour.handlePong 1000 0 2 904).router 2 10 96 := by
  have ready := detour_repriceable 96 (by decide) (by decide)
  apply (ready.repriced_iff (by decide) (show sub32 1000 904 = 96 by decide)).mpr
  intro d cell direct apart found via near
  obtain ⟨rfl, rfl⟩ | ⟨rfl, rfl⟩ := detour_route found
  · obtain ⟨-, rfl⟩ | ⟨here, -⟩ := detour_link near
    · decide
    · exact absurd here (by decide)
  · exact absurd rfl apart

/-- When it speeds up to 5, the route to 3 should cost 10 and stays at 15. -/
theorem detour_faster : detour.Repriceable 0 2 10 5 ∧
    ¬ detour.Repriced (detour.handlePong 1000 0 2 995).router 2 10 5 := by
  refine ⟨detour_repriceable 5 (by decide) (by decide), fun law => ?_⟩
  have found : detour.dvMap[3]? = some ⟨2, 15, 0⟩ := by rw [detour_dvMap, if_pos rfl]
  have promised := law.via 3 ⟨2, 15, 0⟩ found rfl
  have stays : (detour.handlePong 1000 0 2 995).router.dvMap[3]?.map DVCell.route = some (2, 15) := by
    decide +kernel
  have asked : cheaper (detour.handlePong 1000 0 2 995).router.directNeighbors 2 3 (15 - 10 + 5) =
      (2, 10) := by
    decide +kernel
  dsimp only at promised
  rw [stays, asked] at promised
  exact absurd promised (by decide)

end Router

end ComputerNetworks.Routing
