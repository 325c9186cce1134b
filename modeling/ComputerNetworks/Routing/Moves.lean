import ComputerNetworks.Routing.Router
import Mathlib.Logic.Relation

/-!
# What the loops do to the routes

The loops of `recvDV`, `handlePingPong` and `refreshDV` change the tables through a
few moves only: install, reprice or withdraw one route and push the matching pair,
or push the pair of a route as it is. `Move` lists them with what is known where
they happen, and invariants of the tables are proved against `Move`.
-/

namespace ComputerNetworks.Routing

namespace Router

variable (r : Router) (dest : ℕ) (cell : DVCell)

@[simp] theorem install_dvMap (d : ℕ) :
    (r.install dest cell).dvMap[d]? = if d = dest then some cell else r.dvMap[d]? :=
  Table.getElem?_insert _ _ _ _

@[simp] theorem install_forwardingTable (d : ℕ) : (r.install dest cell).forwardingTable[d]? =
    if d = dest then some cell.nextHop else r.forwardingTable[d]? :=
  Table.getElem?_insert _ _ _ _

@[simp] theorem setCell_dvMap (d : ℕ) :
    (r.setCell dest cell).dvMap[d]? = if d = dest then some cell else r.dvMap[d]? :=
  Table.getElem?_insert _ _ _ _

@[simp] theorem drop_dvMap (d : ℕ) :
    (r.drop dest).dvMap[d]? = if d = dest then none else r.dvMap[d]? :=
  Table.getElem?_erase _ _ _

@[simp] theorem drop_forwardingTable (d : ℕ) :
    (r.drop dest).forwardingTable[d]? = if d = dest then none else r.forwardingTable[d]? :=
  Table.getElem?_erase _ _ _

/-- Everything but the routes is the same. -/
structure SameLinks (r s : Router) : Prop where
  protocolType : s.protocolType = r.protocolType
  numPorts : s.numPorts = r.numPorts
  routerId : s.routerId = r.routerId
  ports : s.ports = r.ports
  directNeighbors : s.directNeighbors = r.directNeighbors

theorem SameLinks.refl (r : Router) : r.SameLinks r := ⟨rfl, rfl, rfl, rfl, rfl⟩

theorem SameLinks.trans {r s t : Router} (first : r.SameLinks s) (second : s.SameLinks t) :
    r.SameLinks t where
  protocolType := second.protocolType.trans first.protocolType
  numPorts := second.numPorts.trans first.numPorts
  routerId := second.routerId.trans first.routerId
  ports := second.ports.trans first.ports
  directNeighbors := second.directNeighbors.trans first.directNeighbors

theorem SameLinks.symm {r s : Router} (same : r.SameLinks s) : s.SameLinks r :=
  ⟨same.1.symm, same.2.symm, same.3.symm, same.4.symm, same.5.symm⟩

/-- `n` is a direct neighbour. -/
def Knows (r : Router) (n : ℕ) : Prop := ∃ direct, r.directNeighbors[n]? = some direct

/-- What there is to say about a destination: the cost of its route, or that it has none. -/
def news (r : Router) (dest : ℕ) : Advert :=
  match r.dvMap[dest]? with
  | some cell => .route dest cell.cost
  | none => .withdrawn dest

theorem news_some {r : Router} {dest : ℕ} {cell : DVCell} (found : r.dvMap[dest]? = some cell) :
    r.news dest = .route dest cell.cost := by
  simp [news, found]

theorem news_none {r : Router} {dest : ℕ} (absent : r.dvMap[dest]? = none) :
    r.news dest = .withdrawn dest := by
  simp [news, absent]

/-- The news is the cost. -/
theorem news_eq_iff {r s : Router} {dest : ℕ} :
    s.news dest = r.news dest ↔
      s.dvMap[dest]?.map DVCell.cost = r.dvMap[dest]?.map DVCell.cost := by
  unfold news
  cases r.dvMap[dest]? <;> cases s.dvMap[dest]? <;> simp

end Router

/-- One change of the routes inside an operation. -/
inductive Move : Update → Update → Prop
  /-- Push the pair of a route. -/
  | tell {u : Update} {dest : ℕ} {cell : DVCell} (found : u.router.dvMap[dest]? = some cell) :
      Move u (u.tell (.route dest cell.cost))
  /-- Install a route through a known neighbour. -/
  | reroute {u : Update} {dest : ℕ} {cell : DVCell} (hop : u.router.Knows cell.nextHop)
      (other : dest ≠ u.router.routerId ∨ ∃ old, u.router.dvMap[dest]? = some old) :
      Move u (u.reroute dest cell)
  /-- Change the cost of a route. -/
  | reprice {u : Update} {dest : ℕ} {old cell : DVCell}
      (found : u.router.dvMap[dest]? = some old) (same : cell.nextHop = old.nextHop) :
      Move u (u.reprice dest cell)
  /-- Withdraw a route. -/
  | withdraw {u : Update} {dest : ℕ} {cell : DVCell} (found : u.router.dvMap[dest]? = some cell) :
      Move u (u.withdraw dest)

/-- Any number of moves. -/
abbrev Moves : Update → Update → Prop := Relation.ReflTransGen Move

theorem Move.sameLinks {u v : Update} (move : Move u v) : u.router.SameLinks v.router := by
  cases move <;> exact ⟨rfl, rfl, rfl, rfl, rfl⟩

theorem Moves.sameLinks {u v : Update} (moves : Moves u v) : u.router.SameLinks v.router := by
  induction moves with
  | refl => exact .refl _
  | tail _ move ih => exact ih.trans move.sameLinks

/-- A loop each of whose rounds consists of moves consists of moves. A round may rely
on a law that the rounds keep. -/
theorem Moves.foldl {ι : Type*} {I : Update → Prop} {f : Update → ι → Update} {xs : List ι}
    (keeps : ∀ u v, I u → Moves u v → I v) (round : ∀ u, I u → ∀ x ∈ xs, Moves u (f u x))
    {u : Update} (start : I u) : Moves u (xs.foldl f u) := by
  induction xs generalizing u with
  | nil => exact .refl
  | cons x xs ih =>
    have first := round u start x List.mem_cons_self
    exact first.trans (ih (fun v hv y hy => round v hv y (List.mem_cons_of_mem _ hy))
      (keeps u _ start first))

/-! ### The rounds of the loops -/

/-- What one pair of a DV packet does. -/
inductive PairResult (now source link : ℕ) (u : Update) (dest cost : ℕ) : Update → Prop
  /-- The pair is no news. -/
  | ignored : PairResult now source link u dest cost u
  /-- A route through the sender for a new destination. -/
  | added (finite : cost ≠ infinityCost) (absent : u.router.dvMap[dest]? = none)
      (other : dest ≠ u.router.routerId) :
      PairResult now source link u dest cost
        (u.reroute dest ⟨source, (cost + link) % 2 ^ 32, now⟩)
  /-- A better route, or a change of the route through the sender. -/
  | adopted {cell : DVCell} (finite : cost ≠ infinityCost)
      (found : u.router.dvMap[dest]? = some cell)
      (better : (cost + link) % 2 ^ 32 < cell.cost ∨ source = cell.nextHop ∧
        ∀ direct, u.router.directNeighbors[dest]? = some direct →
          (cost + link) % 2 ^ 32 < direct.cost) :
      PairResult now source link u dest cost
        (u.reroute dest ⟨source, (cost + link) % 2 ^ 32, now⟩)
  /-- The route through the sender is given up for the direct link. -/
  | direct {cell : DVCell} {direct : NNCell} (found : u.router.dvMap[dest]? = some cell)
      (via : source = cell.nextHop) (near : u.router.directNeighbors[dest]? = some direct)
      (worse : cost = infinityCost ∨
        cell.cost ≤ (cost + link) % 2 ^ 32 ∧ direct.cost ≤ (cost + link) % 2 ^ 32) :
      PairResult now source link u dest cost (u.reroute dest ⟨dest, direct.cost, now⟩)
  /-- The route through the sender is gone. -/
  | withdrawn {cell : DVCell} (poison : cost = infinityCost)
      (found : u.router.dvMap[dest]? = some cell) (via : source = cell.nextHop)
      (far : u.router.directNeighbors[dest]? = none) :
      PairResult now source link u dest cost (u.withdraw dest)
  /-- The sender lost its route, and is told of this one. -/
  | told {cell : DVCell} (poison : cost = infinityCost)
      (found : u.router.dvMap[dest]? = some cell) (other : source ≠ cell.nextHop) :
      PairResult now source link u dest cost
        ((u.tell (.route dest cell.cost)).tell (.route dest cell.cost))

theorem recvPair_result (now source link : ℕ) (u : Update) (dest cost : ℕ) :
    PairResult now source link u dest cost (Router.recvPair now source link u (dest, cost)) := by
  unfold Router.recvPair
  dsimp only
  cases found : u.router.dvMap[dest]? with
  | none =>
    dsimp only
    split_ifs with new
    · exact .added new.1 found new.2
    · exact .ignored
  | some cell =>
    dsimp only
    split_ifs with finite better via via
    · exact .adopted finite found (.inl better)
    · cases direct : u.router.directNeighbors[dest]? with
      | none => exact .adopted finite found (.inr ⟨via, by simp [direct]⟩)
      | some cell' =>
        dsimp only
        split_ifs with less
        · exact .adopted finite found (.inr ⟨via, by simpa [direct] using less⟩)
        · exact .direct found via direct (.inr ⟨not_lt.mp better, not_lt.mp less⟩)
    · exact .ignored
    · cases direct : u.router.directNeighbors[dest]? with
      | none => exact .withdrawn (not_not.mp finite) found via direct
      | some cell' => exact .direct found via direct (.inl (not_not.mp finite))
    · exact .told (not_not.mp finite) found via

/-- A pair from a known neighbour. -/
theorem recvPair_moves {now source link : ℕ} {u : Update} (known : u.router.Knows source)
    (pair : ℕ × ℕ) : Moves u (Router.recvPair now source link u pair) := by
  obtain ⟨dest, cost⟩ := pair
  generalize outcome : Router.recvPair now source link u (dest, cost) = v
  have result := recvPair_result now source link u dest cost
  rw [outcome] at result
  cases result with
  | ignored => exact .refl
  | added _ _ other => exact .single (.reroute known (.inl other))
  | adopted _ found => exact .single (.reroute known (.inr ⟨_, found⟩))
  | direct found _ near => exact .single (.reroute ⟨_, near⟩ (.inr ⟨_, found⟩))
  | withdrawn _ found => exact .single (.withdraw found)
  | told _ found => exact .tail (.single (.tell found)) (.tell found)

/-- The round of the PONG loop at a destination, in the order of the source's tests. -/
theorem repriceEntry_moves {now src rrt diff : ℕ} {disconnected : Bool} {u : Update}
    (known : u.router.Knows src) (dest : ℕ) :
    Moves u (Router.repriceEntry now src rrt diff disconnected u dest) := by
  unfold Router.repriceEntry
  cases found : u.router.dvMap[dest]? with
  | none => exact .refl
  | some cell =>
    dsimp only
    split_ifs
    · cases direct : u.router.directNeighbors[dest]? with
      | none => exact .single (.reprice found rfl)
      | some cell' =>
        dsimp only
        split_ifs
        · exact .single (.reroute ⟨_, direct⟩ (.inr ⟨_, found⟩))
        · exact .single (.reprice found rfl)
    · exact .single (.reroute known (.inr ⟨_, found⟩))
    · exact .single (.tell found)
    · exact .refl

/-- Losing a route. -/
theorem deleteRoute_moves {now : ℕ} {u : Update} {dest : ℕ} {cell : DVCell}
    (found : u.router.dvMap[dest]? = some cell) : Moves u (Router.deleteRoute now u dest) := by
  unfold Router.deleteRoute
  cases direct : u.router.directNeighbors[dest]? with
  | none => exact .single (.withdraw found)
  | some cell' => exact .single (.reroute ⟨_, direct⟩ (.inr ⟨_, found⟩))

theorem expireEntry_moves {now : ℕ} {u : Update} (dest : ℕ) :
    Moves u (Router.expireEntry now u dest) := by
  unfold Router.expireEntry
  cases found : u.router.dvMap[dest]? with
  | none => exact .refl
  | some cell =>
    dsimp only
    split_ifs
    · exact deleteRoute_moves found
    · exact .refl

/-! ### The loops -/

/-- A known neighbour stays known while routes change. -/
theorem Moves.knows {u v : Update} {n : ℕ} (known : u.router.Knows n) (moves : Moves u v) :
    v.router.Knows n := by
  obtain ⟨direct, found⟩ := known
  exact ⟨direct, by rw [moves.sameLinks.directNeighbors, found]⟩

theorem recvPairs_moves {now source link : ℕ} {u : Update} (known : u.router.Knows source)
    (pairs : List (ℕ × ℕ)) : Moves u (pairs.foldl (Router.recvPair now source link) u) :=
  Moves.foldl (fun _ _ h moves => Moves.knows h moves)
    (fun _ h pair _ => recvPair_moves h pair) known

theorem repriceEntries_moves {now src rrt diff : ℕ} {disconnected : Bool} {u : Update}
    (known : u.router.Knows src) (dests : List ℕ) :
    Moves u (dests.foldl (Router.repriceEntry now src rrt diff disconnected) u) :=
  Moves.foldl (fun _ _ h moves => Moves.knows h moves)
    (fun _ h dest _ => repriceEntry_moves h dest) known

theorem expireEntries_moves {now : ℕ} {u : Update} (dests : List ℕ) :
    Moves u (dests.foldl (Router.expireEntry now) u) :=
  Moves.foldl (I := fun _ => True) (fun _ _ _ _ => trivial)
    (fun _ _ dest _ => expireEntry_moves dest) trivial

namespace Router

variable {r : Router}

/-- The sender of a DV packet is known when its pairs are looked at. -/
theorem learnNeighbor_knows (port : ℕ) (packet : DVPacket) (junk : ℕ) (r : Router) :
    (r.learnNeighbor port packet junk).Knows packet.source := by
  unfold learnNeighbor Knows
  split_ifs with known
  · exact (Table.contains_iff _).mp known
  · exact ⟨_, by rw [Table.getElem?_insert, if_pos rfl]⟩

/-- Learning of a neighbour changes no route. -/
@[simp] theorem learnNeighbor_dvMap (port : ℕ) (packet : DVPacket) (junk : ℕ) (r : Router) :
    (r.learnNeighbor port packet junk).dvMap = r.dvMap := by
  unfold learnNeighbor
  split_ifs <;> rfl

@[simp] theorem learnNeighbor_routerId (port : ℕ) (packet : DVPacket) (junk : ℕ) (r : Router) :
    (r.learnNeighbor port packet junk).routerId = r.routerId := by
  unfold learnNeighbor
  split_ifs <;> rfl

theorem learnNeighbor_of_knows {packet : DVPacket} (known : r.Knows packet.source)
    (port junk : ℕ) : r.learnNeighbor port packet junk = r :=
  if_pos ((Table.contains_iff _).mpr known)

theorem learnNeighbor_of_not_knows {packet : DVPacket} (unknown : ¬ r.Knows packet.source)
    (port junk : ℕ) : ∃ cost, r.learnNeighbor port packet junk =
      { r with directNeighbors := r.directNeighbors.insert packet.source ⟨cost, port⟩ } :=
  ⟨_, if_neg fun known => unknown ((Table.contains_iff _).mp known)⟩

@[simp] theorem connect_directNeighbors (now port src rrt : ℕ) (r : Router) (n : ℕ) :
    (r.connect now port src rrt).directNeighbors[n]? =
      if n = src then some ⟨rrt, port⟩ else r.directNeighbors[n]? :=
  Table.getElem?_insert _ _ _ _

theorem connect_knows (now port src rrt : ℕ) (r : Router) :
    (r.connect now port src rrt).Knows src :=
  ⟨_, by rw [connect_directNeighbors, if_pos rfl]⟩

theorem recvDV_moves (now port : ℕ) (packet : DVPacket) (junk : ℕ) (r : Router) :
    Moves ⟨r.learnNeighbor port packet junk, []⟩ (r.recvDV now port packet junk) :=
  recvPairs_moves (learnNeighbor_knows port packet junk r) _

end Router

end ComputerNetworks.Routing
