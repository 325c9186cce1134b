import ComputerNetworks.Routing.Repricing

/-!
# What an expiry does

`refreshDV` closes the old ports, forgets the neighbours behind them and gives up two
kinds of routes: those through a forgotten neighbour and those not confirmed for long.
Each of them is replaced by the direct link to its destination or dropped, and one
advert says so. Nothing else changes.
-/

namespace ComputerNetworks.Routing

namespace Router

variable {r s : Router} {u : Update} {now dest : ℕ}

/-! ### The rounds -/

/-- What a lost route is replaced by. -/
def fallback (now : ℕ) (links : Table NNCell) (dest : ℕ) : Option DVCell :=
  links[dest]?.map fun direct => ⟨dest, direct.cost, now⟩

/-- The advert about a lost route. -/
def fallbackNews (links : Table NNCell) (dest : ℕ) : Advert :=
  match links[dest]? with
  | some direct => .route dest direct.cost
  | none => .withdrawn dest

theorem fallbackNews_dest (links : Table NNCell) (dest : ℕ) : (fallbackNews links dest).dest = dest := by
  unfold fallbackNews
  cases links[dest]? <;> rfl

/-- Losing a route changes no link. -/
theorem deleteRoute_directNeighbors (now : ℕ) (u : Update) (dest : ℕ) :
    (deleteRoute now u dest).router.directNeighbors = u.router.directNeighbors := by
  unfold deleteRoute
  cases u.router.directNeighbors[dest]? <;> rfl

theorem deleteRoute_own (now : ℕ) (u : Update) (dest : ℕ) :
    (deleteRoute now u dest).router.dvMap[dest]? = fallback now u.router.directNeighbors dest := by
  unfold deleteRoute fallback
  cases u.router.directNeighbors[dest]? with
  | none => exact (drop_dvMap ..).trans (if_pos rfl)
  | some direct => exact (install_dvMap ..).trans (if_pos rfl)

theorem deleteRoute_newPacket (now : ℕ) (u : Update) (dest : ℕ) :
    (deleteRoute now u dest).newPacket =
      u.newPacket ++ [fallbackNews u.router.directNeighbors dest] := by
  unfold deleteRoute fallbackNews
  cases u.router.directNeighbors[dest]? <;> rfl

/-- The loop over `to_delete`. -/
theorem deleteRoute_rounds (now : ℕ) (links : Table NNCell) :
    Rounds (deleteRoute now) (fun r => r.directNeighbors = links)
      (fun dest _ => fallback now links dest) (fun dest _ => [fallbackNews links dest]) where
  keep u dest same := (deleteRoute_directNeighbors now u dest).trans same
  own u dest same := same ▸ deleteRoute_own now u dest
  frame u dest d other := deleteRoute_dvMap now u other
  pushed u dest same := same ▸ deleteRoute_newPacket now u dest
  about dest _ advert member := by
    rw [List.mem_singleton.mp member]
    exact fallbackNews_dest links dest

/-- What the last loop does to an entry. -/
def expiredCell (now : ℕ) (links : Table NNCell) (dest : ℕ) : Option DVCell → Option DVCell
  | none => none
  | some cell => if 45000 < sub32 now cell.updated then fallback now links dest else some cell

/-- What it pushes about it. -/
def expiredNews (now : ℕ) (links : Table NNCell) (dest : ℕ) : Option DVCell → List Advert
  | none => []
  | some cell => if 45000 < sub32 now cell.updated then [fallbackNews links dest] else []

/-- A round loses the route or does nothing. -/
theorem expireEntry_eq (now : ℕ) (u : Update) (dest : ℕ) :
    expireEntry now u dest =
      if ∃ cell, u.router.dvMap[dest]? = some cell ∧ 45000 < sub32 now cell.updated then
        deleteRoute now u dest
      else u := by
  unfold expireEntry
  cases u.router.dvMap[dest]? with
  | none => exact (if_neg fun ⟨_, h, _⟩ => nomatch h).symm
  | some cell =>
    dsimp only
    by_cases old : 45000 < sub32 now cell.updated
    · rw [if_pos old, if_pos ⟨cell, rfl, old⟩]
    · rw [if_neg old, if_neg]
      rintro ⟨_, ⟨⟩, old'⟩
      exact old old'

/-- The loop over the old entries. -/
theorem expireEntry_rounds (now : ℕ) (links : Table NNCell) :
    Rounds (expireEntry now) (fun r => r.directNeighbors = links)
      (expiredCell now links) (expiredNews now links) where
  keep u dest same := by
    rw [expireEntry_eq]
    split_ifs
    · exact (deleteRoute_directNeighbors now u dest).trans same
    · exact same
  own u dest same := by
    subst same
    -- the loop reads the entry as it stands when it comes to it
    unfold expireEntry expiredCell
    cases found : u.router.dvMap[dest]? with
    | none => exact found
    | some cell =>
      dsimp only
      split_ifs
      · exact deleteRoute_own now u dest
      · exact found
  frame u dest d other := by
    rw [expireEntry_eq]
    split_ifs
    · exact deleteRoute_dvMap now u other
    · rfl
  pushed u dest same := by
    subst same
    unfold expireEntry expiredNews
    cases u.router.dvMap[dest]? with
    | none => exact (List.append_nil _).symm
    | some cell =>
      dsimp only
      split_ifs
      · exact deleteRoute_newPacket now u dest
      · exact (List.append_nil _).symm
  about dest entry advert member := by
    unfold expiredNews at member
    split at member
    · cases member
    · split_ifs at member
      · rw [List.mem_singleton.mp member]
        exact fallbackNews_dest links dest
      · cases member

/-! ### The whole of it -/

/-- The router behind port `i` is forgotten at `now`. -/
def Forgets (r : Router) (now n : ℕ) : Prop :=
  ∃ i < r.numPorts, (r.ports i).expired now = true ∧ (r.ports i).toId = n

/-- The route to `d` is lost at `now`. -/
def Loses (r : Router) (now d : ℕ) : Prop :=
  ∃ cell, r.dvMap[d]? = some cell ∧ (r.Forgets now cell.nextHop ∨ 45000 < sub32 now cell.updated)

/-- `s` and `news` are what an expiry at `now` makes of `r`. -/
structure Expired (now : ℕ) (r s : Router) (news : List Advert) : Prop where
  /-- No connected port is older than 15 s. -/
  ports : ∀ i < r.numPorts, (s.ports i).connected = true → sub32 now (s.ports i).updated ≤ 15000
  /-- No route is older than 45 s. -/
  entries : ∀ (d : ℕ) cell, s.dvMap[d]? = some cell → sub32 now cell.updated ≤ 45000
  /-- No route goes through a forgotten neighbour. -/
  hops : ∀ (d : ℕ) cell, s.dvMap[d]? = some cell → ¬ r.Forgets now cell.nextHop
  /-- The links left are those to neighbours that are not forgotten. -/
  links : ∀ (n : ℕ) direct, s.directNeighbors[n]? = some direct ↔
    r.directNeighbors[n]? = some direct ∧ ¬ r.Forgets now n
  dropped : ∀ d : ℕ, r.Loses now d → s.directNeighbors[d]? = none →
    s.dvMap[d]? = none ∧ s.forwardingTable[d]? = none ∧ about d news = [.withdrawn d]
  moved : ∀ (d : ℕ) direct, r.Loses now d → s.directNeighbors[d]? = some direct →
    s.dvMap[d]? = some ⟨d, direct.cost, now⟩ ∧ s.forwardingTable[d]? = some d ∧
      about d news = [.route d direct.cost]
  others : ∀ d : ℕ, ¬ r.Loses now d →
    s.dvMap[d]? = r.dvMap[d]? ∧ s.forwardingTable[d]? = r.forwardingTable[d]? ∧ about d news = []

/-- Fresh stamps are not old. -/
theorem sub32_self (now : ℕ) : sub32 now now = 0 := by
  unfold sub32
  omega

/-- A route that was just replaced passes the last loop. -/
theorem expiredCell_fallback (now : ℕ) (links : Table NNCell) (dest : ℕ) :
    expiredCell now links dest (fallback now links dest) = fallback now links dest ∧
      expiredNews now links dest (fallback now links dest) = [] := by
  unfold fallback
  cases links[dest]? with
  | none => exact ⟨rfl, rfl⟩
  | some direct =>
    have fresh : ¬ 45000 < sub32 now now := by rw [sub32_self]; decide
    exact ⟨if_neg fresh, if_neg fresh⟩

/-- The routes that `refreshDV` puts on its list. -/
theorem PortsExpired.mem_toDelete_iff {t : Router × List ℕ} (h : PortsExpired now r.numPorts r t) :
    dest ∈ t.2 ↔ ∃ cell, r.dvMap[dest]? = some cell ∧ r.Forgets now cell.nextHop := by
  rw [h.mem_toDelete]
  constructor
  · rintro ⟨i, inside, old, cell, found, via⟩
    exact ⟨cell, found, i, inside, old, via.symm⟩
  · rintro ⟨cell, found, i, inside, old, via⟩
    exact ⟨i, inside, old, cell, found, via.symm⟩

section Distinct

variable (distinct : ∀ i j, (r.ports i).connected = true → (r.ports j).connected = true →
  (r.ports i).toId = (r.ports j).toId → i = j)
include distinct

/-- The entry of a destination behind both loops, and what they push about it. -/
theorem refreshDV_entry (now d : ℕ) :
    (r.Loses now d →
        (r.refreshDV now).router.dvMap[d]? =
            fallback now (r.refreshDV now).router.directNeighbors d ∧
          about d (r.refreshDV now).newPacket =
            [fallbackNews (r.refreshDV now).router.directNeighbors d]) ∧
      (¬ r.Loses now d →
        (r.refreshDV now).router.dvMap[d]? = r.dvMap[d]? ∧
          about d (r.refreshDV now).newPacket = []) := by
  obtain ⟨t, ports, loops⟩ := refreshDV_loops now r
  have nodup := ports.nodup_toDelete distinct
  -- the first loop runs over the list, the second over all keys of the table behind it
  have first := deleteRoute_rounds now t.1.directNeighbors
  have last := expireEntry_rounds now t.1.directNeighbors
  have entry := first.foldl_entry (u := ⟨t.1, []⟩) nodup rfl d
  have news := first.foldl_about (u := ⟨t.1, []⟩) nodup rfl d
  have links : (t.2.foldl (deleteRoute now) ⟨t.1, []⟩).router.directNeighbors =
    t.1.directNeighbors := first.foldl_keep rfl
  rw [about_nil, List.nil_append] at news
  rw [ports.dvMap] at entry
  rw [loops]
  generalize t.2.foldl (deleteRoute now) ⟨t.1, []⟩ = u at entry news links
  obtain ⟨entry', news'⟩ := last.foldl_keys links (d := d) rfl rfl
  rw [last.foldl_keep links, entry', news', entry, news]
  by_cases listed : d ∈ t.2
  · have lost : r.Loses now d := by
      obtain ⟨cell, found, forgets⟩ := ports.mem_toDelete_iff.mp listed
      exact ⟨cell, found, .inl forgets⟩
    -- replaced by the first loop: its stamp is fresh, so that the second leaves it alone
    obtain ⟨stays, silent⟩ := expiredCell_fallback now t.1.directNeighbors d
    rw [if_pos listed, if_pos listed, stays, silent]
    exact ⟨fun _ => ⟨rfl, rfl⟩, fun kept => absurd lost kept⟩
  · rw [if_neg listed, if_neg listed, List.nil_append]
    -- not on the list: only the age of the entry decides
    cases found : r.dvMap[d]? with
    | none =>
      have kept : ¬ r.Loses now d := by
        rintro ⟨cell, found', -⟩
        rw [found] at found'
        cases found'
      exact ⟨fun lost => absurd lost kept, fun _ => ⟨rfl, rfl⟩⟩
    | some cell =>
      have lost : r.Loses now d ↔ 45000 < sub32 now cell.updated := by
        constructor
        · rintro ⟨cell', found', forgets | old⟩
          · exact absurd (ports.mem_toDelete_iff.mpr ⟨cell', found', forgets⟩) listed
          · rw [found] at found'
            obtain rfl := Option.some.inj found'
            exact old
        · exact fun old => ⟨cell, found, .inr old⟩
      rw [lost]
      exact ⟨fun old => ⟨if_pos old, if_pos old⟩, fun young => ⟨if_neg young, if_neg young⟩⟩

/-- The links behind the expiry. -/
theorem refreshDV_links (now n : ℕ) (direct : NNCell) :
    (r.refreshDV now).router.directNeighbors[n]? = some direct ↔
      r.directNeighbors[n]? = some direct ∧ ¬ r.Forgets now n := by
  obtain ⟨t, ports, moves⟩ := refreshDV_moves now distinct
  rw [moves.sameLinks.directNeighbors, ports.directNeighbors]
  apply and_congr_right'
  constructor
  · rintro all ⟨i, inside, old, via⟩
    exact all i inside old via
  · exact fun kept i inside old via => kept ⟨i, inside, old, via⟩

/-- The ports behind the expiry. -/
theorem refreshDV_ports (now : ℕ) {i : ℕ} (inside : i < r.numPorts)
    (stays : ((r.refreshDV now).router.ports i).connected = true) :
    sub32 now ((r.refreshDV now).router.ports i).updated ≤ 15000 := by
  obtain ⟨t, ports, moves⟩ := refreshDV_moves now distinct
  have same : t.1.SameLinks (r.refreshDV now).router := moves.sameLinks
  rw [same.ports, ports.ports] at stays ⊢
  by_cases old : (r.ports i).expired now = true
  · rw [if_pos ⟨inside, old⟩] at stays
    cases stays
  · rw [if_neg fun both => old both.2] at stays ⊢
    simpa [Port.expired, stays] using old

theorem refreshDV_agrees (now : ℕ) (agrees : r.Agrees) : (r.refreshDV now).router.Agrees := by
  obtain ⟨t, ports, moves⟩ := refreshDV_moves now distinct
  refine moves.agrees ⟨fun d => ?_, ports.erasedEnd.trans agrees.clean⟩
  rw [ports.forwardingTable, ports.dvMap]
  exact agrees.agree d

/-- An entry behind the expiry is a new direct route or one that was not lost. -/
theorem refreshDV_cases (now : ℕ) {d : ℕ} {cell : DVCell}
    (found : (r.refreshDV now).router.dvMap[d]? = some cell) :
    (∃ direct, (r.refreshDV now).router.directNeighbors[d]? = some direct ∧
      cell = ⟨d, direct.cost, now⟩) ∨ r.dvMap[d]? = some cell ∧ ¬ r.Loses now d := by
  have entry := refreshDV_entry distinct now d
  by_cases lost : r.Loses now d
  · rw [(entry.1 lost).1] at found
    obtain ⟨direct, near, rfl⟩ := Option.map_eq_some_iff.mp found
    exact .inl ⟨direct, near, rfl⟩
  · rw [(entry.2 lost).1] at found
    exact .inr ⟨found, lost⟩

end Distinct

/-- `refreshDV` is complete and exact in every router whose tables agree and whose
connected ports lead to different routers. -/
theorem refreshDV_expired (now : ℕ) (agrees : r.Agrees) (distinct : ∀ i j,
    (r.ports i).connected = true → (r.ports j).connected = true →
      (r.ports i).toId = (r.ports j).toId → i = j) :
    Expired now r (r.refreshDV now).router (r.refreshDV now).newPacket := by
  have entry := refreshDV_entry distinct now
  have links := refreshDV_links distinct now
  -- the forwarding table follows the routes, so that `entry` says all about it
  have agrees' := refreshDV_agrees distinct now agrees
  constructor
  · exact fun i inside stays => refreshDV_ports distinct now inside stays
  · intro d cell found
    obtain ⟨direct, -, rfl⟩ | ⟨found', kept⟩ := refreshDV_cases distinct now found
    · rw [sub32_self]
      exact Nat.zero_le _
    · by_contra old
      exact kept ⟨cell, found', .inr (not_le.mp old)⟩
  · intro d cell found forgets
    obtain ⟨direct, near, rfl⟩ | ⟨found', kept⟩ := refreshDV_cases distinct now found
    · exact ((links d direct).mp near).2 forgets
    · exact kept ⟨cell, found', .inl forgets⟩
  · exact links
  · intro d lost far
    obtain ⟨route, news⟩ := (entry d).1 lost
    rw [fallback, far] at route
    rw [fallbackNews, far] at news
    refine ⟨route, ?_, news⟩
    rw [agrees'.agree, route]
    rfl
  · intro d direct lost near
    obtain ⟨route, news⟩ := (entry d).1 lost
    rw [fallback, near] at route
    rw [fallbackNews, near] at news
    refine ⟨route, ?_, news⟩
    rw [agrees'.agree, route]
    rfl
  · intro d kept
    obtain ⟨route, news⟩ := (entry d).2 kept
    refine ⟨route, ?_, news⟩
    rw [agrees'.agree, route, ← agrees.agree]

/-- When 2 falls silent, the route to it is dropped and the one to 3 goes back to the
direct link. -/
theorem detour_expired :
    ((detour.refreshDV 20000).router.dvMap[2]? = none ∧
        about 2 (detour.refreshDV 20000).newPacket = [.withdrawn 2]) ∧
      (detour.refreshDV 20000).router.dvMap[3]? = some ⟨3, 100, 20000⟩ ∧
        about 3 (detour.refreshDV 20000).newPacket = [.route 3 100] := by
  have agrees : detour.Agrees := ⟨(detour_repriceable 5 (by decide) (by decide)).agrees, rfl⟩
  have distinct : ∀ i j, (detour.ports i).connected = true → (detour.ports j).connected = true →
      (detour.ports i).toId = (detour.ports j).toId → i = j := by
    intro i j
    simp only [detour]
    split_ifs <;> simp_all
  have law := refreshDV_expired 20000 agrees distinct
  have forgets : detour.Forgets 20000 2 := ⟨0, by decide, by decide, rfl⟩
  have near : (detour.refreshDV 20000).router.directNeighbors[3]? = some ⟨100, 1⟩ := by
    decide +kernel
  have far : (detour.refreshDV 20000).router.directNeighbors[2]? = none := by decide +kernel
  obtain ⟨gone, -, news⟩ := law.dropped 2 ⟨⟨2, 10, 0⟩, detour_dvMap 2, .inl forgets⟩ far
  obtain ⟨back, -, news'⟩ := law.moved 3 _ ⟨⟨2, 15, 0⟩, detour_dvMap 3, .inl forgets⟩ near
  exact ⟨⟨gone, news⟩, back, news'⟩

end Router

end ComputerNetworks.Routing
