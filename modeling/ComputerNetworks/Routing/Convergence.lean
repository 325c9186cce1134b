import ComputerNetworks.Lib.DistanceVector
import ComputerNetworks.Lib.Runs
import ComputerNetworks.Routing.Rounds
import ComputerNetworks.Routing.StaticNetwork

/-!
# Routes in a static network

Destination by destination the routers run a distance-vector protocol: every pair of a
DV packet is one event of it, and so is a PONG and the periodic update. The pairs of a
packet are handled one after the other, and what they push is sent together; seen by one
destination, each is sent at once. Costs stay below the total of all round trip times,
so that no 16-bit number overflows.
-/

namespace ComputerNetworks.Routing

open Lib Lib.DistanceVector

/-- The costs for a destination among pairs. -/
def costsOf (d : ℕ) (pairs : List (ℕ × ℕ)) : List ℕ :=
  pairs.filterMap fun pair => if pair.1 = d then some pair.2 else none

@[simp] theorem costsOf_nil (d : ℕ) : costsOf d [] = [] := rfl

theorem costsOf_append (d : ℕ) (ps qs : List (ℕ × ℕ)) :
    costsOf d (ps ++ qs) = costsOf d ps ++ costsOf d qs := List.filterMap_append ..

theorem costsOf_cons (d : ℕ) (pair : ℕ × ℕ) (pairs : List (ℕ × ℕ)) :
    costsOf d (pair :: pairs) = if pair.1 = d then pair.2 :: costsOf d pairs else costsOf d pairs := by
  by_cases here : pair.1 = d <;> simp [costsOf, here]

theorem mem_costsOf {d c : ℕ} {pairs : List (ℕ × ℕ)} : c ∈ costsOf d pairs ↔ (d, c) ∈ pairs := by
  simp only [costsOf, List.mem_filterMap, Option.ite_none_right_eq_some, Option.some.injEq]
  constructor
  · rintro ⟨⟨d', c'⟩, member, rfl, rfl⟩
    exact member
  · intro member
    exact ⟨(d, c), member, rfl, rfl⟩

/-- The costs of the pairs of adverts are those of the adverts about the destination. -/
theorem costsOf_pairs (d : ℕ) (adverts : List Advert) :
    costsOf d (adverts.map Advert.pair) = (about d adverts).map fun advert => advert.pair.2 := by
  induction adverts with
  | nil => rfl
  | cons advert adverts ih =>
    rw [List.map_cons, costsOf_cons, ih, Advert.pair_fst]
    by_cases here : advert.dest = d <;> simp [about, here]

/-- The routers, whom they have heard, and the pairs under way. -/
structure Flow where
  routers : ℕ → Router
  heard : ℕ → ℕ → Bool
  flight : ℕ → ℕ → List (ℕ × ℕ)

namespace Flow

/-- What a destination sees. -/
def view (d : ℕ) (f : Flow) : DistanceVector.State ℕ where
  entry r := (f.routers r).dvMap[d]?.map DVCell.route
  heard := f.heard
  chan a b := costsOf d (f.flight a b)

/-- `r` hears `n`. -/
def hear (f : Flow) (r n : ℕ) : Flow :=
  { f with heard := fun a b => if a = r ∧ b = n then true else f.heard a b }

/-- The first `k` pairs from `n` to `r` arrive. -/
def pop (f : Flow) (n r k : ℕ) : Flow :=
  { f with flight := fun a b => if a = n ∧ b = r then (f.flight a b).drop k else f.flight a b }

/-- An operation of `r` ends. -/
def finish (f : Flow) (r : ℕ) (u : Update) : Flow where
  routers := Function.update f.routers r u.router
  heard := f.heard
  flight a b :=
    if a = r ∧ f.heard r b = true then f.flight a b ++ u.newPacket.map Advert.pair else f.flight a b

/-- Routers are wired, and every destination sees a sound protocol. -/
structure Inv (links : Links) (f : Flow) : Prop where
  wired : ∀ r, StaticNetwork.Wired links r (f.heard r) (f.routers r)
  routes : ∀ d, DistanceVector.Inv links.graph d (f.view d)

/-- No cost increases. -/
def NoWorse (f g : Flow) : Prop := ∀ d, DistanceVector.NoWorse (f.view d) (g.view d)

variable {links : Links} {f g : Flow} {r n d : ℕ} {u : Update}

theorem NoWorse.refl (f : Flow) : f.NoWorse f := fun _ _ _ => id

theorem NoWorse.trans {h : Flow} (first : f.NoWorse g) (second : g.NoWorse h) : f.NoWorse h :=
  fun d v c within => second d v c (first d v c within)

theorem view_entry_of_found {cell : DVCell} (found : (f.routers r).dvMap[d]? = some cell) :
    (f.view d).entry r = some cell.route := by
  simp [view, found]

theorem view_entry_of_absent (absent : (f.routers r).dvMap[d]? = none) :
    (f.view d).entry r = none := by
  simp [view, absent]

@[simp] theorem view_hear : (f.hear r n).view d = (f.view d).hears r n := rfl

/-- The first pair arrives where it is about. -/
theorem view_pop {c : ℕ} {rest : List (ℕ × ℕ)} (head : f.flight n r = (d, c) :: rest) :
    (f.pop n r 1).view d = (f.view d).take n r := by
  unfold view State.take
  congr 1
  funext a b
  by_cases here : a = n ∧ b = r
  · obtain ⟨rfl, rfl⟩ := here
    simp [pop, head, costsOf_cons]
  · simp [pop, here]

/-- Other destinations do not see it. -/
theorem view_pop_of_ne {dest c : ℕ} {rest : List (ℕ × ℕ)} (head : f.flight n r = (dest, c) :: rest)
    (other : d ≠ dest) : (f.pop n r 1).view d = f.view d := by
  unfold view
  congr 1
  funext a b
  by_cases here : a = n ∧ b = r
  · obtain ⟨rfl, rfl⟩ := here
    simp [pop, head, costsOf_cons, other.symm]
  · simp [pop, here]

/-- What a destination sees of an operation: the entry it leaves and the costs it pushes. -/
theorem view_finish (f : Flow) (r d : ℕ) (u : Update) : (f.finish r u).view d =
    { f.view d with
      entry := Function.update (f.view d).entry r (u.router.dvMap[d]?.map DVCell.route)
      chan := fun a b => if a = r ∧ f.heard r b = true then
        (f.view d).chan a b ++ costsOf d (u.newPacket.map Advert.pair) else (f.view d).chan a b } := by
  unfold view
  congr 1
  · funext v
    by_cases here : v = r
    · subst here
      simp [finish]
    · simp [finish, here]
  · funext a b
    dsimp only [finish]
    split_ifs
    · exact costsOf_append ..
    · rfl

/-- An operation that pushes the cost of the route it leaves. -/
theorem view_finish_tell (route : ℕ × ℕ) (entry : u.router.dvMap[d]?.map DVCell.route = some route)
    (pushed : costsOf d (u.newPacket.map Advert.pair) = [route.2]) :
    (f.finish r u).view d = (f.view d).tell r route := by
  rw [view_finish, entry, pushed]
  rfl

/-- An operation that leaves a route alone. -/
theorem view_finish_same
    (entry : u.router.dvMap[d]?.map DVCell.route = (f.routers r).dvMap[d]?.map DVCell.route)
    (silent : costsOf d (u.newPacket.map Advert.pair) = []) : (f.finish r u).view d = f.view d := by
  have same : Function.update (f.view d).entry r ((f.routers r).dvMap[d]?.map DVCell.route) =
    (f.view d).entry := Function.update_eq_self r (f.view d).entry
  rw [view_finish, entry, silent, same]
  simp

/-! ### Bounds -/

section Bounds

variable (h : f.Inv links) (small : links.graph.total links.nodes.toFinset < infinityCost)
include h small

theorem Inv.cost_lt {cell : DVCell} (found : (f.routers r).dvMap[d]? = some cell) :
    cell.cost < infinityCost := by
  exact Nat.lt_of_le_of_lt (((h.routes d).le_total fun _ _ _ => Links.mem_nodes_of_weight).1 r
    cell.nextHop cell.cost (view_entry_of_found found)) small

theorem Inv.flight_lt {a b c : ℕ} (member : (d, c) ∈ f.flight a b) : c < infinityCost :=
  Nat.lt_of_le_of_lt (((h.routes d).le_total fun _ _ _ => Links.mem_nodes_of_weight).2 a b c
    (mem_costsOf.mpr member)) small

end Bounds

theorem weight_lt (small : links.graph.total links.nodes.toFinset < infinityCost) {w : ℕ}
    (edge : links.graph.weight r n = some w) : w < infinityCost :=
  Nat.lt_of_le_of_lt (WeightedGraph.weight_le_total (fun _ _ _ => Links.mem_nodes_of_weight) edge) small

/-- A route is to a router of the network. -/
theorem Inv.mem_nodes (h : f.Inv links) {cell : DVCell}
    (found : (f.routers r).dvMap[d]? = some cell) : d ∈ links.nodes := by
  have entry : (f.view d).entry r = some cell.route := view_entry_of_found found
  obtain ⟨c, -, distance⟩ := (h.routes d).distance_le entry
  exact Links.mem_nodes_of_walk distance.walk ((h.routes d).sound.ne_target entry)

theorem Inv.weight_of_heard (h : f.Inv links) (heard : f.heard r n = true) :
    links.graph.weight r n = some (links.rtt r n) := by
  obtain ⟨i, j, peer⟩ := (h.wired r).linked n heard
  exact Links.weight_of_peer peer

/-! ### One pair -/

theorem Inv.finish_wired (h : f.Inv links) (same : (f.routers r).SameLinks u.router) (v : ℕ) :
    StaticNetwork.Wired links v ((f.finish r u).heard v) ((f.finish r u).routers v) := by
  by_cases here : v = r
  · subst here
    simpa [finish] using (h.wired v).congr same
  · simpa [finish, here] using h.wired v

/-- The one cost pushed for a destination, if it fits a pair. -/
theorem costsOf_of_about {adverts : List Advert} {c : ℕ} (pushed : about d adverts = [.route d c])
    (small : c < infinityCost) : costsOf d (adverts.map Advert.pair) = [c] := by
  dsimp only [infinityCost] at small
  rw [costsOf_pairs, pushed, List.map_singleton, Advert.pair, Nat.mod_eq_of_lt (by omega)]

theorem about_route (d c : ℕ) : about d [.route d c] = [.route d c] := about_eq_self (by simp)

/-- An operation that takes a route and pushes its cost. -/
theorem view_finish_reroute (router : Router) (cell : DVCell) (fits : cell.cost < infinityCost) :
    (f.finish r ((⟨router, []⟩ : Update).reroute d cell)).view d = (f.view d).tell r cell.route := by
  refine view_finish_tell _ ?_ (costsOf_of_about (about_route ..) fits)
  exact congrArg _ ((Router.install_dvMap ..).trans (if_pos rfl))

/-- What a pair pushes is about its destination. -/
theorem recvPair_pushes {now source link dest cost : ℕ} (r : Router) {advert : Advert}
    (member : advert ∈ (Router.recvPair now source link ⟨r, []⟩ (dest, cost)).newPacket) :
    advert.dest = dest := by
  generalize outcome : Router.recvPair now source link ⟨r, []⟩ (dest, cost) = v at member
  have result := recvPair_result now source link ⟨r, []⟩ dest cost
  rw [outcome] at result
  cases result with
  | ignored => cases member
  | told =>
    simp only [Update.tell, List.nil_append, List.mem_append, List.mem_singleton, or_self] at member
    rw [member]
    rfl
  | _ =>
    rw [List.mem_singleton.mp member]
    rfl

/-- The pair of a DV packet is an event of the protocol for its destination. -/
theorem Inv.recvPair_own (h : f.Inv links) (small : links.graph.total links.nodes.toFinset < infinityCost)
    {c : ℕ} {rest : List (ℕ × ℕ)} (heard : f.heard r n = true)
    (head : f.flight n r = (d, c) :: rest) (now : ℕ) :
    Step links.graph d (f.view d)
        (((f.pop n r 1).finish r
          (Router.recvPair now n (links.rtt r n) ⟨f.routers r, []⟩ (d, c))).view d) ∧
      (Router.recvPair now n (links.rtt r n) ⟨f.routers r, []⟩ (d, c)).newPacket.length ≤ 1 := by
  have edge := h.weight_of_heard heard
  have arrived : c < infinityCost := h.flight_lt small (head ▸ List.mem_cons_self)
  have link := weight_lt small edge
  have sum : (c + links.rtt r n) % 2 ^ 32 = c + links.rtt r n := by
    dsimp only [infinityCost] at *
    omega
  have chan : (f.view d).chan n r = c :: costsOf d rest := by
    simp [view, head, costsOf_cons]
  have routerId := (h.wired r).routerId
  -- a route through the sender that the protocol takes has a cost that fits
  have adopt : r ≠ d → (∀ hop k, (f.view d).entry r = some (hop, k) → c + links.rtt r n < k ∨ n = hop) →
      Step links.graph d (f.view d) (((f.view d).take n r).tell r (n, c + links.rtt r n)) ∧
        c + links.rtt r n < infinityCost := by
    intro other useful
    have step := Step.adopt edge heard chan other useful
    refine ⟨step, Nat.lt_of_le_of_lt ((((h.routes d).step step).1.le_total
      fun _ _ _ => Links.mem_nodes_of_weight).1 r n _ State.tell_entry_self) small⟩
  generalize outcome : Router.recvPair now n (links.rtt r n) ⟨f.routers r, []⟩ (d, c) = u
  have result := recvPair_result now n (links.rtt r n) ⟨f.routers r, []⟩ d c
  rw [outcome] at result
  cases result with
  | ignored =>
    rw [view_finish_same rfl rfl, view_pop head]
    refine ⟨.ignore edge chan ?_, Nat.zero_le _⟩
    -- an ignored pair about another router left an entry that is not worse
    by_cases here : r = d
    · exact .inl here
    · obtain ⟨cell, found, le⟩ := Router.recvPair_within now n (links.rtt r n)
        (show c ≠ infinityCost by omega)
        (show d ≠ (f.routers r).routerId by rw [routerId]; exact fun same => here same.symm)
        (u := ⟨f.routers r, []⟩)
      rw [outcome] at found
      exact .inr ⟨cell.nextHop, cell.cost, view_entry_of_found found, by omega⟩
  | added _ absent other =>
    obtain ⟨step, fits⟩ := adopt (by rw [routerId] at other; exact other.symm) fun hop k found => by
      rw [view_entry_of_absent absent] at found
      cases found
    refine ⟨?_, Nat.le_refl _⟩
    rw [sum, view_finish_reroute _ ⟨n, c + links.rtt r n, now⟩ fits, view_pop head]
    exact step
  | @adopted cell _ found better =>
    have entry := view_entry_of_found found
    obtain ⟨step, fits⟩ := adopt ((h.routes d).sound.ne_target entry) fun hop k found' => by
      rw [entry] at found'
      obtain ⟨rfl, rfl⟩ := Prod.mk.inj (Option.some.inj found')
      rw [sum] at better
      exact better.imp id And.left
    refine ⟨?_, Nat.le_refl _⟩
    rw [sum, view_finish_reroute _ ⟨n, c + links.rtt r n, now⟩ fits, view_pop head]
    exact step
  | @direct cell direct found via near worse =>
    have entry := view_entry_of_found found
    obtain ⟨heard', -, cost⟩ := ((h.wired r).known d direct).mp near
    have edge' := h.weight_of_heard heard'
    -- the direct link wins against a poisoned pair, whose cost is too large to arrive, or a worse
    -- one
    have better : links.rtt r d ≤ c + links.rtt r n := by
      rcases worse with poison | worse
      · omega
      · rw [← cost, ← sum]
        exact worse.2
    refine ⟨?_, Nat.le_refl _⟩
    rw [view_finish_reroute _ ⟨d, direct.cost, now⟩ (cost ▸ weight_lt small edge'), view_pop head]
    have hop : (f.view d).entry r = some (n, cell.cost) := by
      rw [entry, via]
      rfl
    rw [cost]
    exact .direct edge chan hop heard' edge' better
  -- the last two answer an infinite cost, and every cost under way is finite
  | withdrawn poison => omega
  | told poison => omega

/-- The pair of a DV packet keeps the invariant. -/
theorem Inv.recvPair (h : f.Inv links) (small : links.graph.total links.nodes.toFinset < infinityCost)
    {pair : ℕ × ℕ} {rest : List (ℕ × ℕ)} (heard : f.heard r n = true)
    (head : f.flight n r = pair :: rest) (now : ℕ) {u : Update}
    (outcome : Router.recvPair now n (links.rtt r n) ⟨f.routers r, []⟩ pair = u) :
    ((f.pop n r 1).finish r u).Inv links ∧ f.NoWorse ((f.pop n r 1).finish r u) ∧
      u.newPacket.length ≤ 1 := by
  obtain ⟨dest, c⟩ := pair
  subst outcome
  obtain ⟨step, length⟩ := h.recvPair_own small heard head now
  -- what other destinations see does not move: the pair was not about them
  have others : ∀ d, d ≠ dest → ((f.pop n r 1).finish r (Router.recvPair now n (links.rtt r n)
      ⟨f.routers r, []⟩ (dest, c))).view d = f.view d := by
    intro d other
    refine (view_finish_same ?_ ?_).trans (view_pop_of_ne head other)
    · rw [Router.recvPair_dvMap_of_ne other]
      rfl
    · rw [costsOf_pairs, about_eq_nil, List.map_nil]
      exact fun advert member same => other (same.symm.trans (recvPair_pushes _ member))
  have all : ∀ d, DistanceVector.Inv links.graph d (((f.pop n r 1).finish r (Router.recvPair now n
      (links.rtt r n) ⟨f.routers r, []⟩ (dest, c))).view d) ∧
        DistanceVector.NoWorse (f.view d) (((f.pop n r 1).finish r (Router.recvPair now n
      (links.rtt r n) ⟨f.routers r, []⟩ (dest, c))).view d) := by
    intro d
    by_cases here : d = dest
    · subst here
      exact (h.routes d).step step
    · rw [others d here]
      exact ⟨h.routes d, fun _ _ => id⟩
  refine ⟨⟨fun v => ?_, fun d => (all d).1⟩, fun d => (all d).2, length⟩
  exact h.finish_wired (f := f) (Router.recvPair_sameLinks now n (links.rtt r n) ⟨f.routers r, []⟩ (dest, c)) v

/-! ### One packet -/

/-- The pairs pushed before do not matter. -/
theorem recvPair_append (now source link : ℕ) (u : Update) (pair : ℕ × ℕ) :
    Router.recvPair now source link u pair =
      ⟨(Router.recvPair now source link ⟨u.router, []⟩ pair).router,
        u.newPacket ++ (Router.recvPair now source link ⟨u.router, []⟩ pair).newPacket⟩ := by
  -- no branch of `recvPair` reads the packet that it pushes to
  unfold Router.recvPair
  dsimp only
  cases u.router.dvMap[pair.1]? with
  | none =>
    dsimp only
    split_ifs
    · rfl
    · rw [List.append_nil]
  | some cell =>
    dsimp only
    split_ifs
    · rfl
    · cases u.router.directNeighbors[pair.1]? with
      | none => rfl
      | some direct =>
        dsimp only
        split_ifs <;> rfl
    · rw [List.append_nil]
    · cases u.router.directNeighbors[pair.1]? <;> rfl
    · simp only [Update.tell, List.nil_append, List.append_assoc]

theorem recvPairs_append (now source link : ℕ) (pairs : List (ℕ × ℕ)) (u : Update) :
    pairs.foldl (Router.recvPair now source link) u =
      ⟨(pairs.foldl (Router.recvPair now source link) ⟨u.router, []⟩).router,
        u.newPacket ++ (pairs.foldl (Router.recvPair now source link) ⟨u.router, []⟩).newPacket⟩ := by
  induction pairs generalizing u with
  | nil => simp
  | cons pair pairs ih =>
    rw [List.foldl_cons, List.foldl_cons, ih,
      ih (Router.recvPair now source link ⟨u.router, []⟩ pair), recvPair_append]
    simp

/-- An operation that does nothing. -/
theorem finish_nothing (f : Flow) (r : ℕ) : f.finish r ⟨f.routers r, []⟩ = f := by
  unfold finish
  congr 1
  · exact Function.update_eq_self r f.routers
  · funext a b
    simp

theorem pop_zero (f : Flow) (n r : ℕ) : f.pop n r 0 = f := by
  unfold pop
  congr 1
  funext a b
  simp

/-- Two operations of `r` in a row, on pairs from `n`. -/
theorem finish_pop_finish_pop (f : Flow) (other : n ≠ r) (k : ℕ) (v w : Update) :
    (((f.pop n r 1).finish r v).pop n r k).finish r w =
      (f.pop n r (k + 1)).finish r ⟨w.router, v.newPacket ++ w.newPacket⟩ := by
  unfold finish pop
  congr 1
  · exact Function.update_idem ..
  · funext a b
    dsimp only
    by_cases sender : a = r
    · subst sender
      simp only [other.symm, false_and, if_false, true_and]
      split_ifs
      · rw [List.map_append, List.append_assoc]
      · rfl
    · simp only [sender, false_and, if_false]
      split_ifs
      · rw [List.drop_drop, Nat.add_comm]
      · rfl

/-- The pairs of a DV packet, one after the other, are as many events. -/
theorem Inv.recvPairs (h : f.Inv links) (small : links.graph.total links.nodes.toFinset < infinityCost)
    {pairs rest : List (ℕ × ℕ)} (heard : f.heard r n = true)
    (head : f.flight n r = pairs ++ rest) (now : ℕ) {u : Update}
    (outcome : pairs.foldl (Router.recvPair now n (links.rtt r n)) ⟨f.routers r, []⟩ = u) :
    ((f.pop n r pairs.length).finish r u).Inv links ∧
      f.NoWorse ((f.pop n r pairs.length).finish r u) ∧ u.newPacket.length ≤ pairs.length := by
  induction pairs generalizing f u with
  | nil =>
    subst outcome
    simp only [List.foldl_nil, List.length_nil, pop_zero, finish_nothing]
    exact ⟨h, .refl f, Nat.le_refl 0⟩
  | cons pair pairs ih =>
    generalize first : Router.recvPair now n (links.rtt r n) ⟨f.routers r, []⟩ pair = v
    obtain ⟨inv, noWorse, length⟩ := h.recvPair small heard head now first
    generalize later : pairs.foldl (Router.recvPair now n (links.rtt r n)) ⟨v.router, []⟩ = w
    have other : n ≠ r := (WeightedGraph.ne_of_weight (h.weight_of_heard heard)).symm
    have head' : ((f.pop n r 1).finish r v).flight n r = pairs ++ rest := by
      simp [finish, pop, other, head]
    have router : ((f.pop n r 1).finish r v).routers r = v.router := by simp [finish]
    obtain ⟨inv', noWorse', length'⟩ := ih inv heard head' (router.symm ▸ later)
    have whole : u = ⟨w.router, v.newPacket ++ w.newPacket⟩ := by
      rw [← outcome, List.foldl_cons, first, recvPairs_append, later]
    rw [finish_pop_finish_pop f other, ← whole] at inv' noWorse'
    refine ⟨inv', noWorse.trans noWorse', ?_⟩
    rw [whole, List.length_append, List.length_cons]
    omega

/-! ### PONGs and periodic updates -/

/-- A table lists few routers. -/
theorem length_le (links : Links) {adverts : List Advert}
    (nodup : (adverts.map Advert.dest).Nodup)
    (inside : ∀ advert ∈ adverts, advert.dest ∈ links.nodes) : adverts.length ≤ 16000 := by
  have le := (nodup.subperm fun d listed => by
    obtain ⟨advert, pushed, rfl⟩ := List.mem_map.mp listed
    exact inside advert pushed).length_le
  rw [List.length_map] at le
  exact Nat.le_trans le links.small

/-- The full table is pushed. -/
theorem Inv.announce (h : f.Inv links) (small : links.graph.total links.nodes.toFinset < infinityCost)
    (r : ℕ) : (f.finish r ⟨f.routers r, (f.routers r).fullTable⟩).Inv links ∧
      f.NoWorse (f.finish r ⟨f.routers r, (f.routers r).fullTable⟩) := by
  have all : ∀ d, DistanceVector.Inv links.graph d
      ((f.finish r ⟨f.routers r, (f.routers r).fullTable⟩).view d) ∧
        DistanceVector.NoWorse (f.view d)
          ((f.finish r ⟨f.routers r, (f.routers r).fullTable⟩).view d) := by
    intro d
    cases found : (f.routers r).dvMap[d]? with
    | none =>
      rw [view_finish_same rfl (by rw [costsOf_pairs, Router.about_fullTable, found]; rfl)]
      exact ⟨h.routes d, fun _ _ => id⟩
    | some cell =>
      have pushed : about d (f.routers r).fullTable = [.route d cell.cost] := by
        rw [Router.about_fullTable, found]
        rfl
      rw [view_finish_tell cell.route (by rw [found]; rfl)
        (costsOf_of_about pushed (h.cost_lt small found))]
      exact (h.routes d).step (.announce (view_entry_of_found found))
  exact ⟨⟨fun v => h.finish_wired (u := ⟨f.routers r, _⟩) (.refl _) v, fun d => (all d).1⟩,
    fun d => (all d).2⟩

/-- At most one advert about each destination. -/
theorem nodup_of_about {adverts : List Advert} (once : ∀ d, (about d adverts).length ≤ 1) :
    (adverts.map Advert.dest).Nodup := by
  rw [List.nodup_iff_count_le_one]
  intro d
  have same : (adverts.map Advert.dest).count d = (about d adverts).length := by
    rw [List.count, List.countP_map, List.countP_eq_length_filter, about]
    congr 1
  exact same ▸ once d

/-- A PONG keeps routers wired. -/
theorem Inv.pong_wired (h : f.Inv links) {i j now time : ℕ} (peer : links.peer r i = some (n, j))
    (rtt : sub32 now time = links.rtt r n) {u : Update}
    (outcome : (f.routers r).handlePong now i n time = u) (v : ℕ) :
    StaticNetwork.Wired links v (((f.hear r n).finish r u).heard v)
      (((f.hear r n).finish r u).routers v) := by
  have same : ((f.routers r).connect now i n (links.rtt r n)).SameLinks u.router := by
    rw [← outcome, ← rtt]
    refine Router.handlePong_keeps (fun _ _ moves same => same.trans moves.sameLinks) ?_ (.refl _)
    rw [(h.wired r).routerId]
    exact links.loopless r i n j peer
  by_cases here : v = r
  · subst here
    simpa [finish, hear] using ((h.wired v).connect peer now).congr same
  · simpa [finish, hear, here] using h.wired v

/-- Nothing is routed through a router that has not been heard. -/
theorem Inv.nextHop_ne (h : f.Inv links) (unheard : f.heard r n = false) (d : ℕ) (cell : DVCell)
    (found : (f.routers r).dvMap[d]? = some cell) : cell.nextHop ≠ n := by
  rintro rfl
  have heard : f.heard r cell.nextHop = true := by
    cases (h.routes d).sound.good r _ _ (view_entry_of_found found) with
    | direct heard => exact heard
    | via heard => exact heard
  rw [unheard] at heard
  cases heard

/-- The first PONG of a neighbour is an event for every destination. -/
theorem Inv.step_of_firstPong (h : f.Inv links)
    (small : links.graph.total links.nodes.toFinset < infinityCost) {i j : ℕ}
    (peer : links.peer r i = some (n, j)) (now : ℕ)
    (pushed : about d u.newPacket =
      (u.router.dvMap[d]?.map fun cell => Advert.route d cell.cost).toList)
    (absent : (f.routers r).dvMap[d]? = none →
      u.router.dvMap[d]? = if d = n then some ⟨n, links.rtt r n, now⟩ else none)
    (present : ∀ cell, (f.routers r).dvMap[d]? = some cell → u.router.dvMap[d]? =
      if d = n ∧ links.rtt r n ≤ cell.cost then some ⟨n, links.rtt r n, now⟩ else some cell) :
    Step links.graph d (f.view d) (((f.hear r n).finish r u).view d) := by
  have edge := Links.weight_of_peer peer
  have fits := weight_lt small edge
  cases found : (f.routers r).dvMap[d]? with
  | none =>
    have entry := absent found
    by_cases here : d = n
    · subst here
      rw [if_pos rfl] at entry
      rw [entry] at pushed
      rw [view_finish_tell (d, links.rtt r d) (by rw [entry]; rfl) (costsOf_of_about pushed fits)]
      exact .hearTarget edge fun hop k found' => by
        rw [view_entry_of_absent found] at found'
        cases found'
    · rw [if_neg here] at entry
      rw [entry] at pushed
      rw [view_finish_same (by rw [entry]; exact (congrArg _ found).symm)
        (by rw [costsOf_pairs, pushed]; rfl)]
      exact .hear edge (Ne.symm here) (view_entry_of_absent found)
  | some cell =>
    have entry := present cell found
    by_cases better : d = n ∧ links.rtt r n ≤ cell.cost
    · rw [if_pos better] at entry
      obtain ⟨rfl, le⟩ := better
      rw [entry] at pushed
      rw [view_finish_tell (d, links.rtt r d) (by rw [entry]; rfl) (costsOf_of_about pushed fits)]
      refine .hearTarget edge fun hop k found' => ?_
      rw [view_entry_of_found found] at found'
      obtain ⟨-, rfl⟩ := Prod.mk.inj (Option.some.inj found')
      exact le
    · rw [if_neg better] at entry
      rw [entry] at pushed
      rw [view_finish_tell cell.route (by rw [entry]; rfl)
        (costsOf_of_about pushed (h.cost_lt small found))]
      refine .hearTell edge (view_entry_of_found found) fun same => ?_
      have worse : ¬ links.rtt r n ≤ cell.cost := fun le => better ⟨same.symm, le⟩
      exact Nat.le_of_lt (Nat.lt_of_not_le worse)

/-- A packet that pushes every route once is short. -/
theorem Inv.length_of_about (h : f.Inv links) (routers : (f.routers r) = u.router)
    (pushed : ∀ d, about d u.newPacket =
      (u.router.dvMap[d]?.map fun cell => Advert.route d cell.cost).toList) :
    u.newPacket.length ≤ 16000 := by
  refine length_le links (nodup_of_about fun d => ?_) fun advert member => ?_
  · rw [pushed d]
    cases u.router.dvMap[d]? <;> simp
  · have listed : advert ∈ about advert.dest u.newPacket :=
      List.mem_filter.mpr ⟨member, decide_eq_true rfl⟩
    rw [pushed advert.dest] at listed
    cases found : u.router.dvMap[advert.dest]? with
    | none => simp [found] at listed
    | some cell => exact h.mem_nodes (routers ▸ found)

/-- The first PONG of a neighbour. -/
theorem Inv.firstPong (h : f.Inv links) (small : links.graph.total links.nodes.toFinset < infinityCost)
    {i j now time : ℕ} (peer : links.peer r i = some (n, j)) (unheard : f.heard r n = false)
    (rtt : sub32 now time = links.rtt r n) {u : Update}
    (outcome : (f.routers r).handlePong now i n time = u) :
    ((f.hear r n).finish r u).Inv links ∧ f.NoWorse ((f.hear r n).finish r u) ∧
      u.newPacket.length ≤ 16000 := by
  have fits := weight_lt small (Links.weight_of_peer peer)
  have positive := links.rtt_pos r i n j peer
  have ends := (h.wired r).ends i n j peer
  rw [unheard, if_neg (by simp)] at ends
  have first := Router.handlePong_first (f.routers r) now i n time ends.1 ends.2 (by omega)
    (by dsimp only [infinityCost] at fits; omega) (h.nextHop_ne unheard)
  rw [outcome, rtt] at first
  have steps : ∀ d, Step links.graph d (f.view d) (((f.hear r n).finish r u).view d) := by
    intro d
    refine h.step_of_firstPong small peer now (first d).1 (fun absent => ?_) fun cell found => ?_
    · rw [(first d).2, absent]
    · rw [(first d).2, found]
  have inv : ((f.hear r n).finish r u).Inv links :=
    ⟨h.pong_wired peer rtt outcome, fun d => ((h.routes d).step (steps d)).1⟩
  have routers : ((f.hear r n).finish r u).routers r = u.router := by simp [finish]
  exact ⟨inv, fun d => ((h.routes d).step (steps d)).2,
    inv.length_of_about routers fun d => (first d).1⟩

/-- A later PONG of a neighbour changes nothing. -/
theorem Inv.laterPong (h : f.Inv links) {i j now time : ℕ} (peer : links.peer r i = some (n, j))
    (heard : f.heard r n = true) (rtt : sub32 now time = links.rtt r n) {u : Update}
    (outcome : (f.routers r).handlePong now i n time = u) :
    ((f.hear r n).finish r u).Inv links ∧ f.NoWorse ((f.hear r n).finish r u) ∧
      u.newPacket.length ≤ 16000 := by
  have edge := Links.weight_of_peer peer
  have ends := (h.wired r).ends i n j peer
  rw [if_pos heard] at ends
  obtain ⟨hop, k, listed, -⟩ := (h.routes n).near r heard _ edge
  have same : f.hear r n = f := by
    unfold hear
    congr 1
    funext a b
    split_ifs with here
    · rw [here.1, here.2, heard]
    · rfl
  have wired := h.pong_wired peer rtt outcome
  rw [same] at wired ⊢
  let touched := ((f.routers r).connect now i n (links.rtt r n)).dvMap.keys.foldl
    (Router.touchEntry now n) ((f.routers r).connect now i n (links.rtt r n))
  have routes : ∀ d : ℕ, touched.dvMap[d]?.map DVCell.route = (f.routers r).dvMap[d]?.map DVCell.route :=
    fun d => Router.touchEntries_route ..
  have unchanged : sub32 (links.rtt r n) ((f.routers r).ports i).cost = 0 := by
    rw [ends.2.2, sub32, Int.sub_self]
    rfl
  have present : touched.dvMap.contains n = true := by
    have route := routes n
    obtain ⟨cell, found, -⟩ := Option.map_eq_some_iff.mp listed
    rw [found] at route
    obtain ⟨cell', found', -⟩ := Option.map_eq_some_iff.mp route
    exact (Table.contains_iff _).mpr ⟨cell', found'⟩
  have whole : u = ⟨touched, []⟩ := by
    rw [← outcome]
    unfold Router.handlePong
    dsimp only
    rw [rtt, unchanged, Router.updateRoutes, if_neg (not_not.mpr rfl)]
    exact if_pos present
  have silent : ∀ d, (f.finish r u).view d = f.view d := by
    intro d
    rw [whole]
    exact view_finish_same (routes d) rfl
  refine ⟨⟨wired, fun d => ?_⟩, fun d => ?_, ?_⟩
  · rw [silent]
    exact h.routes d
  · rw [silent]
    exact fun _ _ => id
  · rw [whole]
    exact Nat.zero_le _

end Flow

namespace StaticNetwork

/-- The pairs of the DV packets under way. -/
def flow (net : StaticNetwork) : Flow where
  routers := net.routers
  heard := net.heard
  flight a b := (net.chan a b).flatMap DVPacket.received

/-- The invariant of a static network. -/
structure Inv (links : Links) (net : StaticNetwork) : Prop where
  flow : net.flow.Inv links
  packets : ∀ a b, ∀ packet ∈ net.chan a b, packet.source = a ∧ packet.received.length ≤ 16000

/-- No cost increases. -/
def NoWorse (net net' : StaticNetwork) : Prop :=
  ∀ r (d : ℕ) cell, (net.routers r).dvMap[d]? = some cell →
    ∃ cell', (net'.routers r).dvMap[d]? = some cell' ∧ cell'.cost ≤ cell.cost

variable {links : Links} {net net' : StaticNetwork} {r : ℕ}

theorem noWorse_of_flow (h : net.flow.NoWorse net'.flow) : net.NoWorse net' := by
  intro r d cell found
  have within : (net.flow.view d).Within r cell.cost :=
    ⟨cell.nextHop, cell.cost, Flow.view_entry_of_found found, Nat.le_refl _⟩
  obtain ⟨hop, k, entry, le⟩ := h d r _ within
  obtain ⟨cell', found', same⟩ := Option.map_eq_some_iff.mp entry
  exact ⟨cell', found', (congrArg Prod.snd same).trans_le le⟩

/-- What a wired router sends to another, if its adverts fit a packet. -/
structure Sends (links : Links) (r : ℕ) (heard : ℕ → Bool) (adverts : List Advert)
    (sends : List Send) : Prop where
  pairs : ∀ b, (dvTo links r b sends).flatMap DVPacket.received =
    if heard b = true then adverts.map Advert.pair else []
  packets : ∀ b, ∀ packet ∈ dvTo links r b sends,
    packet.source = r ∧ packet.received.length ≤ 16000

theorem Wired.sends {heard : ℕ → Bool} {router : Router} (h : Wired links r heard router)
    {adverts : List Advert} (fits : adverts.length ≤ 16000) :
    Sends links r heard adverts (router.sendDVUpdate adverts) := by
  have received : ∀ i, (router.dvPacket adverts i).received = adverts.map Advert.pair :=
    Router.received_dvPacket router (by omega)
  refine ⟨fun b => ?_, fun b packet member => ?_⟩
  · obtain ⟨i, sent⟩ := h.dvTo_sendDVUpdate adverts b
    rw [sent]
    split_ifs
    · rw [List.flatMap_singleton, received]
    · rfl
  · obtain ⟨i, sent⟩ := h.dvTo_sendDVUpdate adverts b
    rw [sent] at member
    split_ifs at member
    · rw [List.mem_singleton.mp member, received, List.length_map]
      exact ⟨h.routerId, fits⟩
    · cases member

theorem Wired.sends_finish {heard : ℕ → Bool} {u : Update} (h : Wired links r heard u.router)
    (fits : u.newPacket.length ≤ 16000) : Sends links r heard u.newPacket u.finish.2 := by
  unfold Update.finish
  dsimp only
  split_ifs with empty
  · refine ⟨fun b => ?_, fun b packet member => ?_⟩
    · rw [empty]
      split_ifs <;> rfl
    · cases member
  · exact h.sends fits

/-- A call whose router and sends are those of an operation. -/
theorem flow_call (net : StaticNetwork) {event : Event} (u : Update)
    (router : ((net.routers r).handle event).1 = u.router)
    (sends : Sends links r (net.heard r) u.newPacket ((net.routers r).handle event).2) :
    (net.call links r event).flow = net.flow.finish r u := by
  unfold call flow Flow.finish
  congr 1
  · rw [router]
  · funext a b
    dsimp only
    by_cases here : a = r
    · subst here
      rw [if_pos rfl, List.flatMap_append, sends.pairs b]
      by_cases heard : net.heard a b = true <;> simp [heard]
    · simp [here]

theorem packets_call {event : Event} {adverts : List Advert}
    (old : ∀ a b, ∀ packet ∈ net.chan a b, packet.source = a ∧ packet.received.length ≤ 16000)
    (sends : Sends links r (net.heard r) adverts ((net.routers r).handle event).2) :
    ∀ a b, ∀ packet ∈ (net.call links r event).chan a b,
      packet.source = a ∧ packet.received.length ≤ 16000 := by
  intro a b packet member
  simp only [call] at member
  split_ifs at member with here
  · subst here
    rcases List.mem_append.mp member with before | now
    · exact old a b packet before
    · exact sends.packets b packet now
  · exact old a b packet member

/-- A packet that arrives takes all its pairs with it. -/
theorem flow_drop {n : ℕ} {packet : DVPacket} {rest : List DVPacket}
    (head : net.chan n r = packet :: rest) :
    (net.drop n r).flow = net.flow.pop n r packet.received.length := by
  unfold flow drop Flow.pop
  congr 1
  funext a b
  dsimp only
  split_ifs with here
  · rw [here.1, here.2, head, List.tail_cons, List.flatMap_cons, List.drop_left]
  · rfl

/-- A PONG keeps the invariant, the first one over a link and a later one. -/
theorem Inv.step_pong (h : net.Inv links) (small : links.graph.total links.nodes.toFinset < infinityCost)
    {r i now time : ℕ} (next : net.step links (.pong r i now time) = some net') :
    net'.Inv links ∧ net.NoWorse net' := by
  simp only [StaticNetwork.step] at next
  cases peer : links.peer r i with
  | none => simp [peer] at next
  | some other =>
    obtain ⟨n, j⟩ := other
    simp only [peer, Option.ite_none_right_eq_some, Option.some.injEq] at next
    obtain ⟨rtt, rfl⟩ := next
    have kept : ((net.flow.hear r n).finish r ((net.routers r).handlePong now i n time)).Inv links ∧
        net.flow.NoWorse ((net.flow.hear r n).finish r ((net.routers r).handlePong now i n time)) ∧
          ((net.routers r).handlePong now i n time).newPacket.length ≤ 16000 := by
      cases heard : net.heard r n with
      | false => exact h.flow.firstPong small peer heard rtt rfl
      | true => exact h.flow.laterPong peer heard rtt rfl
    obtain ⟨inv, noWorse, fits⟩ := kept
    have wired : Wired links r ((net.flow.hear r n).heard r)
        ((net.routers r).handlePong now i n time).router := by
      simpa [Flow.finish] using inv.wired r
    have sends : Sends links r ((net.hear r n).heard r)
        ((net.routers r).handlePong now i n time).newPacket
          (((net.hear r n).routers r).handle (.recv now i (.pong n r time) 0)).2 := by
      rw [Router.handle_pong]
      exact Wired.sends_finish wired fits
    have flow := flow_call (net.hear r n) ((net.routers r).handlePong now i n time) rfl sends
    rw [show (net.hear r n).flow = net.flow.hear r n from rfl] at flow
    exact ⟨⟨flow ▸ inv, packets_call h.packets sends⟩, noWorse_of_flow (flow ▸ noWorse)⟩

/-- A DV packet that is delivered keeps the invariant. -/
theorem Inv.step_deliver (h : net.Inv links) (small : links.graph.total links.nodes.toFinset < infinityCost)
    {r i now junk : ℕ} (next : net.step links (.deliver r i now junk) = some net') :
    net'.Inv links ∧ net.NoWorse net' := by
  simp only [StaticNetwork.step] at next
  cases peer : links.peer r i with
  | none => simp [peer] at next
  | some other =>
    obtain ⟨n, j⟩ := other
    simp only [peer] at next
    cases head : net.chan n r with
    | nil => simp [head] at next
    | cons packet rest =>
      simp only [head, Option.ite_none_right_eq_some, Option.some.injEq] at next
      obtain ⟨heard, rfl⟩ := next
      obtain ⟨source, length⟩ := h.packets n r packet (head ▸ List.mem_cons_self)
      have flight : net.flow.flight n r = packet.received ++ rest.flatMap DVPacket.received := by
        rw [show net.flow.flight n r = (net.chan n r).flatMap DVPacket.received from rfl, head]
        rfl
      generalize outcome : (net.routers r).recvDV now i packet junk = u
      have pairs : packet.received.foldl (Router.recvPair now n (links.rtt r n))
          ⟨net.routers r, []⟩ = u := by
        have knows : (net.routers r).Knows packet.source := by
          rw [source]
          exact (h.flow.wired r).knows_iff.mpr heard
        have link : (net.routers r).linkCost n = links.rtt r n := (h.flow.wired r).linkCost heard
        rw [← outcome, Router.recvDV, Router.learnNeighbor_of_knows knows, source, link]
      obtain ⟨inv, noWorse, fits⟩ := h.flow.recvPairs small heard flight now pairs
      have wired : Wired links r ((net.flow.pop n r packet.received.length).heard r) u.router := by
        simpa [Flow.finish] using inv.wired r
      have sends : Sends links r ((net.drop n r).heard r) u.newPacket
          (((net.drop n r).routers r).handle (.recv now i (.dv packet) junk)).2 := by
        rw [Router.handle_dv, show (net.drop n r).routers r = net.routers r from rfl, outcome]
        exact Wired.sends_finish wired (Nat.le_trans fits length)
      have flow := flow_call (net.drop n r) u (by
        rw [Router.handle_dv, show (net.drop n r).routers r = net.routers r from rfl, outcome]
        rfl) sends
      rw [flow_drop head] at flow
      refine ⟨⟨flow ▸ inv, packets_call (fun a b p member => h.packets a b p ?_) sends⟩,
        noWorse_of_flow (flow ▸ noWorse)⟩
      simp only [drop] at member
      split_ifs at member
      · exact List.mem_of_mem_tail member
      · exact member

/-- An update alarm keeps the invariant; in another protocol it does nothing. -/
theorem Inv.step_update (h : net.Inv links) (small : links.graph.total links.nodes.toFinset < infinityCost)
    {r now : ℕ} (next : net.step links (.update r now) = some net') :
    net'.Inv links ∧ net.NoWorse net' := by
  cases next
  by_cases dv : (net.routers r).protocolType = .dv
  · obtain ⟨inv, noWorse⟩ := h.flow.announce small r
    have fits : (net.routers r).fullTable.length ≤ 16000 := by
      refine Flow.length_le links (Router.nodup_fullTable _) fun advert member => ?_
      obtain ⟨⟨d, cell⟩, entry, rfl⟩ := List.mem_map.mp member
      exact h.flow.mem_nodes (Std.ExtTreeMap.mem_toList_iff_getElem?_eq_some.mp entry)
    have sends : Sends links r (net.heard r) (net.routers r).fullTable
        ((net.routers r).handle (.alarm now .update)).2 := by
      rw [Router.handle_update, if_pos dv]
      exact Wired.sends (h.flow.wired r) fits
    have flow := flow_call net ⟨net.routers r, (net.routers r).fullTable⟩ rfl sends
    exact ⟨⟨flow ▸ inv, packets_call h.packets sends⟩, noWorse_of_flow (flow ▸ noWorse)⟩
  · have sends : Sends links r (net.heard r) [] ((net.routers r).handle (.alarm now .update)).2 := by
      rw [Router.handle_update, if_neg dv]
      exact Wired.sends_finish (u := ⟨net.routers r, []⟩) (h.flow.wired r) (Nat.zero_le _)
    have flow := flow_call net ⟨net.routers r, []⟩ rfl sends
    have same := flow.trans (net.flow.finish_nothing r)
    exact ⟨⟨same ▸ h.flow, packets_call h.packets sends⟩, noWorse_of_flow (same ▸ .refl net.flow)⟩

/-- Every step keeps the invariant, and no cost increases. -/
theorem Inv.step (h : net.Inv links) (small : links.graph.total links.nodes.toFinset < infinityCost)
    {action : StaticAction} (next : net.step links action = some net') :
    net'.Inv links ∧ net.NoWorse net' := by
  cases action with
  | pong r i now time => exact h.step_pong small next
  | deliver r i now junk => exact h.step_deliver small next
  | update r now => exact h.step_update small next

theorem Inv.start (links : Links) : (start links).Inv links where
  flow :=
    { wired := fun r =>
        { routerId := rfl
          numPorts := rfl
          linked := fun _ heard => by cases heard
          known := fun n direct => by simp [StaticNetwork.flow, StaticNetwork.start, Site.start, Router.init]
          ends := fun i n j _ => by simp [StaticNetwork.flow, StaticNetwork.start, Site.start, Router.init]
          loose := fun i _ => by simp [StaticNetwork.flow, StaticNetwork.start, Site.start, Router.init] }
      routes := fun d => by
        have empty : (StaticNetwork.start links).flow.view d =
            ⟨fun _ => none, fun _ _ => false, fun _ _ => []⟩ := by
          simp [StaticNetwork.flow, Flow.view, StaticNetwork.start, Site.start, Router.init]
        rw [empty]
        exact .start }
  packets _ _ _ member := by cases member

/-- Whatever the order of events, a route costs at least the distance, and no cost
increases; once everything is handled, every connected router has its exact distance. -/
theorem routes_exact (links : Links) (small : links.graph.total links.nodes.toFinset < infinityCost)
    (net : StaticNetwork) (reach : Reachable (step links) (fun s => s = start links) net) :
    (∀ r (d : ℕ) cell, (net.routers r).dvMap[d]? = some cell →
        ∃ c ≤ cell.cost, links.graph.IsDistance d r c) ∧
      (∀ action net', net.step links action = some net' → net.NoWorse net') ∧
      (net.Quiet links → ∀ r d c, r ≠ d → links.graph.IsDistance d r c →
        ∃ cell, (net.routers r).dvMap[d]? = some cell ∧ cell.cost = c) := by
  have inv : net.Inv links := reach.invariant (fun s first => first ▸ .start links)
    fun s action t h next => (h.step small next).1
  refine ⟨fun r d cell found => ?_, fun action net' next => (inv.step small next).2,
    fun quiet r d c other distance => ?_⟩
  · exact (inv.flow.routes d).distance_le (Flow.view_entry_of_found found)
  · have heard : ∀ u v w, links.graph.weight u v = some w → net.heard u v = true := by
      intro u v w edge
      obtain ⟨⟨i, j, peer⟩, -⟩ := Links.weight_eq_some_iff.mp edge
      exact quiet.heard u i v j peer
    have empty : ∀ u v w, links.graph.weight u v = some w → (net.flow.view d).chan v u = [] := by
      intro u v w edge
      obtain ⟨⟨i, j, peer⟩, -⟩ := Links.weight_eq_some_iff.mp edge
      change costsOf d ((net.chan v u).flatMap DVPacket.received) = []
      rw [quiet.empty u i v j peer]
      rfl
    obtain ⟨hop, entry⟩ := (inv.flow.routes d).exact heard empty other distance
    obtain ⟨cell, found, same⟩ := Option.map_eq_some_iff.mp entry
    exact ⟨cell, found, congrArg Prod.snd same⟩

/-- Routers 1 and 2 handle each other's PONG and then the DV packets this triggers. -/
def oneLinkRun : List StaticAction :=
  [.pong 1 0 10 0, .pong 2 0 12 2, .update 1 20, .deliver 1 0 21 0, .deliver 2 0 22 0, .deliver 2 0 23 0]

/-- After the run everything is handled, and router 1 has router 2 at its distance. -/
theorem oneLinkRun_exact : ∃ net, exec (step Links.oneLink) (start Links.oneLink) oneLinkRun = some net ∧
    net.Quiet Links.oneLink ∧
      ∀ c, Links.oneLink.graph.IsDistance 2 1 c →
        ∃ cell, (net.routers 1).dvMap[2]? = some cell ∧ cell.cost = c := by
  obtain ⟨net, run⟩ : ∃ net, exec (step Links.oneLink) (start Links.oneLink) oneLinkRun = some net :=
    ⟨_, rfl⟩
  have check : (exec (step Links.oneLink) (start Links.oneLink) oneLinkRun).map
      (fun net => (net.chan 1 2, net.chan 2 1, net.heard 1 2, net.heard 2 1)) =
        some ([], [], true, true) := by decide +kernel
  rw [run, Option.map_some, Option.some.injEq] at check
  simp only [Prod.mk.injEq] at check
  have quiet : net.Quiet Links.oneLink := by
    constructor
    · intro r i n j peer
      obtain ⟨-, -, ⟨rfl, rfl⟩ | ⟨rfl, rfl⟩⟩ := Links.oneLink_peer peer
      · exact check.2.1
      · exact check.1
    · intro r i n j peer
      obtain ⟨-, -, ⟨rfl, rfl⟩ | ⟨rfl, rfl⟩⟩ := Links.oneLink_peer peer
      · exact check.2.2.1
      · exact check.2.2.2
  exact ⟨net, run, quiet, fun c => (routes_exact Links.oneLink (by decide +kernel) net
    ⟨_, oneLinkRun, rfl, run⟩).2.2 quiet 1 2 c (by decide)⟩

end StaticNetwork

end ComputerNetworks.Routing
