import ComputerNetworks.Routing.Costs

/-!
# No route change goes unannounced

Whatever an operation does to a route, `new_packet` ends with the right pair for it:
along the loops the last pair for a destination is always the current news of it, and
a destination without a pair has kept its cost. At the end every connected port gets
the whole vector in one packet.
-/

namespace ComputerNetworks.Routing

open Router

/-- The last advert for a destination. -/
def lastAdvert (dest : ℕ) (adverts : List Advert) : Option Advert :=
  (adverts.filter fun advert => advert.dest = dest).getLast?

/-- The cost in the last pair for a destination. -/
def lastCost (dest : ℕ) (pairs : List (ℕ × ℕ)) : Option ℕ :=
  (pairs.filter fun pair => pair.1 = dest).getLast?.map Prod.snd

theorem lastAdvert_append (dest : ℕ) (earlier later : List Advert) :
    lastAdvert dest (earlier ++ later) =
      (lastAdvert dest later).or (lastAdvert dest earlier) := by
  rw [lastAdvert, List.filter_append, List.getLast?_append]
  rfl

@[simp] theorem lastAdvert_concat (dest : ℕ) (adverts : List Advert) (advert : Advert) :
    lastAdvert dest (adverts ++ [advert]) =
      if advert.dest = dest then some advert else lastAdvert dest adverts := by
  rw [lastAdvert_append]
  by_cases here : advert.dest = dest <;> simp [lastAdvert, here]

/-- Writing adverts as pairs does not change which is the last. -/
theorem lastCost_map (dest : ℕ) (adverts : List Advert) :
    lastCost dest (adverts.map Advert.pair) =
      (lastAdvert dest adverts).map fun advert => advert.pair.2 := by
  rw [lastCost, lastAdvert, List.filter_map, List.getLast?_map, Option.map_map]
  simp only [Function.comp_def, Advert.pair_fst]

/-- The last advert for each destination is its news, and a destination without an
advert has the news it had in `old`. -/
structure Update.Announced (old : Router) (u : Update) : Prop where
  current : ∀ dest advert, lastAdvert dest u.newPacket = some advert → advert = u.router.news dest
  silent : ∀ dest, lastAdvert dest u.newPacket = none → u.router.news dest = old.news dest

variable {old r s : Router} {u v : Update} {site : Site}

theorem Router.announced_start (same : ∀ dest, r.news dest = old.news dest) :
    (⟨r, []⟩ : Update).Announced old :=
  ⟨by simp [lastAdvert], fun dest _ => same dest⟩

/-- Pushing the current news of the one destination that may have changed. -/
theorem Update.Announced.push (h : u.Announced old) {dest : ℕ} {advert : Advert}
    (about : advert.dest = dest) (current : advert = s.news dest)
    (others : ∀ d, d ≠ dest → s.news d = u.router.news d) :
    (⟨s, u.newPacket ++ [advert]⟩ : Update).Announced old := by
  refine ⟨fun d a last => ?_, fun d none => ?_⟩
  · rw [lastAdvert_concat, about] at last
    split_ifs at last with here
    · cases last
      exact here ▸ current
    · rw [others d (Ne.symm here)]
      exact h.current d a last
  · rw [lastAdvert_concat, about] at none
    split_ifs at none with here
    rw [others d (Ne.symm here)]
    exact h.silent d none

/-- News of a destination depends on its entry only. -/
theorem Router.news_congr {dest : ℕ} (same : s.dvMap[dest]? = r.dvMap[dest]?) :
    s.news dest = r.news dest := by
  simp only [news, same]

theorem Move.announced (move : Move u v) (h : u.Announced old) : v.Announced old := by
  cases move with
  | tell found => exact h.push rfl (news_some found).symm fun _ _ => rfl
  | @reroute dest cell =>
    refine h.push (s := u.router.install dest cell) rfl (news_some ?_).symm fun d other => ?_
    · rw [install_dvMap, if_pos rfl]
    · exact news_congr ((install_dvMap ..).trans (if_neg other))
  | @reprice dest _ cell =>
    refine h.push (s := u.router.setCell dest cell) rfl (news_some ?_).symm fun d other => ?_
    · rw [setCell_dvMap, if_pos rfl]
    · exact news_congr ((setCell_dvMap ..).trans (if_neg other))
  | @withdraw dest =>
    refine h.push (s := u.router.drop dest) rfl (news_none ?_).symm fun d other => ?_
    · rw [drop_dvMap, if_pos rfl]
    · exact news_congr ((drop_dvMap ..).trans (if_neg other))

theorem Moves.announced (moves : Moves u v) (h : u.Announced old) : v.Announced old := by
  induction moves with
  | refl => exact h
  | tail _ move ih => exact move.announced ih

namespace Router

/-! ### Full tables -/

theorem lastAdvert_fullTable (r : Router) (dest : ℕ) :
    lastAdvert dest r.fullTable = if r.dvMap.contains dest then some (r.news dest) else none := by
  have all : ∀ advert ∈ r.fullTable.filter fun advert => advert.dest = dest,
      advert = r.news dest ∧ r.dvMap.contains dest = true := by
    intro advert member
    obtain ⟨listed, about⟩ := List.mem_filter.mp member
    obtain ⟨⟨d, cell⟩, entry, rfl⟩ := List.mem_map.mp listed
    have found := Std.ExtTreeMap.mem_toList_iff_getElem?_eq_some.mp entry
    obtain rfl : d = dest := of_decide_eq_true about
    exact ⟨(news_some found).symm, (Table.contains_iff _).mpr ⟨cell, found⟩⟩
  split_ifs with present
  · obtain ⟨cell, found⟩ := (Table.contains_iff _).mp present
    have listed : .route dest cell.cost ∈ r.fullTable := mem_fullTable.mpr ⟨cell, found, rfl⟩
    have member : .route dest cell.cost ∈ r.fullTable.filter fun advert => advert.dest = dest :=
      List.mem_filter.mpr ⟨listed, decide_eq_true rfl⟩
    have nonempty := List.ne_nil_of_mem member
    rw [lastAdvert, List.getLast?_eq_some_getLast nonempty, (all _ (List.getLast_mem nonempty)).1]
  · rw [lastAdvert, List.getLast?_eq_none_iff, List.eq_nil_iff_forall_not_mem]
    exact fun advert member => present (all advert member).2

/-- A new neighbour is announced by the full table. -/
theorem addNeighbor_announced {now src rrt : ℕ} (h : u.Announced old) :
    (addNeighbor now src rrt u).Announced old := by
  unfold addNeighbor
  split_ifs with listed
  · exact h
  have others : ∀ dest, (u.router.install src ⟨src, rrt, now⟩).dvMap.contains dest = false →
      (u.router.install src ⟨src, rrt, now⟩).news dest = u.router.news dest := by
    intro dest absent
    refine news_congr ?_
    rw [Table.contains_eq_false_iff, install_dvMap] at absent
    split_ifs at absent with here
    rw [install_dvMap, if_neg here]
  refine ⟨fun dest advert last => ?_, fun dest none => ?_⟩
  · simp only [lastAdvert_append, lastAdvert_fullTable] at last
    split_ifs at last with present
    · exact (Option.some.inj last).symm
    · rw [others dest (Bool.eq_false_iff.mpr present)]
      exact h.current dest advert last
  · simp only [lastAdvert_append, lastAdvert_fullTable] at none
    split_ifs at none with present
    · cases none
    · rw [others dest (Bool.eq_false_iff.mpr present)]
      exact h.silent dest none

/-! ### Operations -/

theorem touchEntries_news (now src : ℕ) (dests : List ℕ) (r : Router) (dest : ℕ) :
    (dests.foldl (touchEntry now src) r).news dest = r.news dest := by
  induction dests generalizing r with
  | nil => rfl
  | cons d dests ih =>
    refine (ih _).trans ?_
    rcases touchEntry_eq now src r d with same | ⟨cell, found, touched⟩
    · rw [same]
    · rw [touched]
      unfold news
      rw [setCell_dvMap]
      split_ifs with here
      · rw [here, found]
      · rfl

theorem handlePong_announced (now port src time : ℕ) (r : Router) :
    (r.handlePong now port src time).Announced r := by
  refine addNeighbor_announced ?_
  unfold updateRoutes
  split_ifs
  · exact (repriceEntries_moves (u := ⟨r.connect now port src (sub32 now time), []⟩)
      (connect_knows now port src _ r) _).announced (announced_start fun _ => rfl)
  · exact announced_start fun dest => touchEntries_news now src _ _ dest

theorem recvDV_announced (now port : ℕ) (packet : DVPacket) (junk : ℕ) (r : Router) :
    (r.recvDV now port packet junk).Announced r := by
  refine (recvDV_moves now port packet junk r).announced (announced_start fun dest => news_congr ?_)
  unfold learnNeighbor
  split_ifs <;> rfl

/-- The moves of `refreshDV`, when no two connected ports lead to one router. -/
theorem refreshDV_moves (now : ℕ) (distinct : ∀ i j, (r.ports i).connected = true →
    (r.ports j).connected = true → (r.ports i).toId = (r.ports j).toId → i = j) :
    ∃ t, PortsExpired now r.numPorts r t ∧ Moves ⟨t.1, []⟩ (r.refreshDV now) := by
  obtain ⟨t, expired, loops⟩ := refreshDV_loops now r
  have moves : Moves ⟨t.1, []⟩ (t.2.foldl (deleteRoute now) ⟨t.1, []⟩) :=
    deleteRoutes_moves (expired.nodup_toDelete distinct) fun dest member => expired.listed member
  exact ⟨t, expired, loops ▸ moves.trans (expireEntries_moves _)⟩

/-- The packet every connected port gets at the end of an operation. -/
theorem finish_port (u : Update) {i : ℕ} (inside : i < u.router.numPorts)
    (connected : (u.router.ports i).connected = true) (nonempty : u.newPacket ≠ []) :
    u.finish.2.filter (fun send => send.1 = i) = [(i, .dv (u.router.dvPacket u.newPacket i))] := by
  unfold Update.finish sendDVUpdate
  rw [if_neg nonempty, List.filter_map, List.filter_filter]
  have alone : ((List.range u.router.numPorts).filter fun j =>
      decide (j = i) && (u.router.ports j).connected) =
        (List.range u.router.numPorts).filter fun j => j == i := by
    refine List.filter_congr fun j _ => ?_
    by_cases here : j = i <;> simp [here, connected]
  simp only [Function.comp_def]
  rw [alone, List.filter_beq, List.count_eq_one_of_mem List.nodup_range (List.mem_range.mpr inside)]
  rfl

/-- An update that fits the 16-bit size is read as it was written. -/
theorem received_dvPacket (r : Router) {adverts : List Advert} (fits : adverts.length ≤ 16381)
    (i : ℕ) : (r.dvPacket adverts i).received = adverts.map Advert.pair := by
  unfold DVPacket.received dvPacket
  apply List.take_of_length_le
  rw [List.length_map]
  dsimp only
  omega

end Router

/-! ### The calls that change routes -/

/-- A call that can change routes. -/
inductive Call
  | recvDV (now port : ℕ) (packet : DVPacket) (junk : ℕ)
  | handlePong (now port src time : ℕ)
  | refreshDV (now : ℕ)

namespace Call

/-- The call up to its `sendDVUpdate`. -/
def run (r : Router) : Call → Update
  | recvDV now port packet junk => r.recvDV now port packet junk
  | handlePong now port src time => r.handlePong now port src time
  | refreshDV now => r.refreshDV now

/-- The cost of the link a call learns or uses, and the sums it forms, are finite. -/
def SumsFit (r : Router) : Call → Prop
  | recvDV _ port packet junk =>
    let link := (r.learnNeighbor port packet junk).linkCost packet.source
    link < infinityCost ∧
      ∀ pair ∈ packet.received, pair.2 ≠ infinityCost → pair.2 + link < infinityCost
  | handlePong now _ _ time => sub32 now time < infinityCost
  | refreshDV _ => True

theorem recvPairs_costsBelow {now source link bound : ℕ} {pairs : List (ℕ × ℕ)} {u : Update}
    (fits : ∀ pair ∈ pairs, pair.2 ≠ infinityCost → (pair.2 + link) % 2 ^ 32 < bound)
    (h : u.CostsBelow bound) : (pairs.foldl (recvPair now source link) u).CostsBelow bound := by
  induction pairs generalizing u with
  | nil => exact h
  | cons pair pairs ih =>
    refine ih (fun p member => fits p (List.mem_cons_of_mem _ member)) ?_
    exact recvPair_costsBelow h fun finite _ => fits pair List.mem_cons_self finite

/-- Costs that a call stores have 16 bits. -/
theorem costsBelow {call : Call} (costs : r.CostsBelow infinityCost) (sums : call.SumsFit r) :
    (call.run r).router.CostsBelow (2 ^ 16) := by
  have weaken : ∀ s : Router, s.CostsBelow infinityCost → s.CostsBelow (2 ^ 16) := fun s h =>
    ⟨fun dest cell found => (h.routes dest cell found).trans (by decide),
      fun n direct found => (h.links n direct found).trans (by decide)⟩
  cases call with
  | recvDV now port packet junk =>
    refine (recvPairs_costsBelow (fun pair member finite => ?_)
      (weaken _ (costs.learnNeighbor fun _ => sums.1)).start).router
    have small := sums.2 pair member finite
    dsimp only [infinityCost] at small
    rw [Nat.mod_eq_of_lt (by omega)]
    omega
  | handlePong now port src time =>
    refine (handlePong_costsBelow (weaken r costs) (lt_trans sums (by decide)) ?_).router
    exact fun _ _ _ _ _ _ => Nat.mod_lt _ (by decide)
  | refreshDV now => exact (refreshDV_costsBelow (weaken r costs) now).router

theorem announced (call : Call) (distinct : ∀ i j, (r.ports i).connected = true →
    (r.ports j).connected = true → (r.ports i).toId = (r.ports j).toId → i = j) :
    (call.run r).Announced r := by
  cases call with
  | recvDV now port packet junk => exact recvDV_announced now port packet junk r
  | handlePong now port src time => exact handlePong_announced now port src time r
  | refreshDV now =>
    obtain ⟨t, expired, moves⟩ := refreshDV_moves now distinct
    exact moves.announced (announced_start fun dest => news_congr (by rw [expired.dvMap]))

theorem agrees (call : Call) (h : r.Agrees) (distinct : ∀ i j, (r.ports i).connected = true →
    (r.ports j).connected = true → (r.ports i).toId = (r.ports j).toId → i = j) :
    (call.run r).router.Agrees := by
  cases call with
  | recvDV now port packet junk =>
    refine (recvDV_moves now port packet junk r).agrees ?_
    unfold learnNeighbor
    split_ifs
    · exact h
    · exact ⟨h.agree, h.clean⟩
  | handlePong now port src time =>
    have loop := updateRoutes_keeps (fun _ _ moves => moves.agrees) now (sub32 now time)
      (sub32 (sub32 now time) (r.ports port).cost) (!(r.ports port).connected)
      (connect_knows now port src (sub32 now time) r) ⟨h.agree, h.clean⟩
    change (addNeighbor now src _ _).router.Agrees
    unfold addNeighbor
    split_ifs
    · exact loop
    · exact loop.install src _
  | refreshDV now =>
    obtain ⟨t, expired, moves⟩ := refreshDV_moves now distinct
    refine moves.agrees ⟨?_, expired.erasedEnd.trans h.clean⟩
    rw [expired.dvMap, expired.forwardingTable]
    exact h.agree

/-- When a call inserts, removes or reprices the route to `dest`, every port connected
at its end gets one DV packet, and the last pair for `dest` that is read from it is the
new cost, or `infinityCost` if the route is gone. No erasure misses its key. -/
theorem announces_change {call : Call} {dest : ℕ} (agrees : r.Agrees)
    (distinct : ∀ i j, (r.ports i).connected = true → (r.ports j).connected = true →
      (r.ports i).toId = (r.ports j).toId → i = j)
    (costs : r.CostsBelow infinityCost) (sums : call.SumsFit r)
    (fits : (call.run r).newPacket.length ≤ 16381)
    (changed : (call.run r).router.dvMap[dest]?.map DVCell.cost ≠
      r.dvMap[dest]?.map DVCell.cost) :
    (call.run r).router.erasedEnd = false ∧
    ∀ i < (call.run r).router.numPorts, ((call.run r).router.ports i).connected = true →
      ∃ packet : DVPacket,
        (call.run r).finish.2.filter (fun send => send.1 = i) = [(i, .dv packet)] ∧
        lastCost dest packet.received =
          some (((call.run r).router.dvMap[dest]?.map DVCell.cost).getD infinityCost) := by
  refine ⟨(call.agrees agrees distinct).clean, fun i inside connected => ?_⟩
  have announced := call.announced distinct
  have exact_ := (costsBelow costs sums).routes dest
  -- a change is told, so there is a last pair about it and a packet
  obtain ⟨advert, last⟩ : ∃ advert, lastAdvert dest (call.run r).newPacket = some advert := by
    rw [← Option.ne_none_iff_exists']
    exact fun none => changed (news_eq_iff.mp (announced.silent dest none))
  have nonempty : (call.run r).newPacket ≠ [] := by
    intro empty
    rw [empty] at last
    cases last
  refine ⟨_, finish_port _ inside connected nonempty, ?_⟩
  rw [received_dvPacket _ fits, lastCost_map, last, announced.current dest advert last,
    Option.map_some]
  congr 1
  -- a cost below infinity passes through the 16 bits of a pair
  cases found : (call.run r).router.dvMap[dest]? with
  | none =>
    rw [news_none found]
    rfl
  | some cell =>
    rw [news_some found]
    exact Nat.mod_eq_of_lt (exact_ cell found)

end Call

/-- Router 1 of `twoLinks` when both its neighbours have answered a PING. -/
def bothNeighbors : Router :=
  ((twoLinks.start.handle (.recv 10 0 (.pong 2 1 0) 0)).1.handle (.recv 12 1 (.pong 3 1 4) 0)).1

theorem bothNeighbors_coherent : bothNeighbors.Coherent twoLinks :=
  ((Router.Coherent.start twoLinks).handle (by decide)).handle (by decide)

theorem bothNeighbors_costsBelow : bothNeighbors.CostsBelow infinityCost := by
  have routes : bothNeighbors.dvMap.toList = [(2, ⟨2, 10, 10⟩), (3, ⟨3, 8, 12⟩)] := by decide +kernel
  have links : bothNeighbors.directNeighbors.toList = [(2, ⟨10, 0⟩), (3, ⟨8, 1⟩)] := by
    decide +kernel
  constructor
  · intro dest cell found
    have member := Std.ExtTreeMap.mem_toList_iff_getElem?_eq_some.mpr found
    rw [routes, List.mem_cons, List.mem_singleton] at member
    rcases member with same | same <;> cases same <;> decide
  · intro n direct found
    have member := Std.ExtTreeMap.mem_toList_iff_getElem?_eq_some.mpr found
    rw [links, List.mem_cons, List.mem_singleton] at member
    rcases member with same | same <;> cases same <;> decide

/-- Router 3 offers a better route to 2, and both neighbours are told of it. -/
theorem bothNeighbors_announced :
    (∃ packet : DVPacket, (Call.run bothNeighbors (.recvDV 20 1 ⟨16, 3, 1, [(1, 8), (2, 1)]⟩ 0)).finish.2.filter
      (fun send => send.1 = 0) = [(0, .dv packet)] ∧ lastCost 2 packet.received = some 9) ∧
    ∃ packet : DVPacket, (Call.run bothNeighbors (.recvDV 20 1 ⟨16, 3, 1, [(1, 8), (2, 1)]⟩ 0)).finish.2.filter
      (fun send => send.1 = 1) = [(1, .dv packet)] ∧ lastCost 2 packet.received = some 9 := by
  have coherent := bothNeighbors_coherent
  have sums : Call.SumsFit bothNeighbors (.recvDV 20 1 ⟨16, 3, 1, [(1, 8), (2, 1)]⟩ 0) :=
    ⟨by decide +kernel, by decide +kernel⟩
  have announced := @Call.announces_change bothNeighbors
    (.recvDV 20 1 ⟨16, 3, 1, [(1, 8), (2, 1)]⟩ 0) 2 coherent.routed.toAgrees
    coherent.linked.distinct bothNeighbors_costsBelow sums (by decide +kernel) (by decide +kernel)
  have connected : ∀ i < 2, ((Call.run bothNeighbors
      (.recvDV 20 1 ⟨16, 3, 1, [(1, 8), (2, 1)]⟩ 0)).router.ports i).connected = true := by
    decide +kernel
  have port : ∀ i < 2, i < bothNeighbors.numPorts := fun _ inside => inside
  exact ⟨announced.2 0 (port 0 (by decide)) (connected 0 (by decide)),
    announced.2 1 (port 1 (by decide)) (connected 1 (by decide))⟩

end ComputerNetworks.Routing
