import ComputerNetworks.Routing.Moves
import ComputerNetworks.Routing.Site
import Mathlib.Data.List.Nodup

/-!
# Coherence of the routing tables

In every state a router can reach, `forwarding_table` and `dv_map` agree, every next
hop is a direct neighbour behind a port that leads to it, and no two connected ports
lead to the same router. The law of the routes is kept by every move; expiry breaks
it for the routes through a lost neighbour until the loop over `to_delete` has seen
them.
-/

namespace ComputerNetworks.Routing

open Lib

namespace Router

/-- The two route tables agree, and no erasure has gone wrong. -/
structure Agrees (r : Router) : Prop where
  agree : ∀ dest : ℕ, r.forwardingTable[dest]? = r.dvMap[dest]?.map DVCell.nextHop
  clean : r.erasedEnd = false

/-- The law of the routes; the next hops of `pending` destinations may be unknown. -/
structure Routed (pending : List ℕ) (r : Router) : Prop extends Agrees r where
  self : r.dvMap[r.routerId]? = none
  hops : ∀ (dest : ℕ) cell, r.dvMap[dest]? = some cell → dest ∉ pending → r.Knows cell.nextHop

/-- The law of the links. -/
structure Linked (site : Site) (r : Router) : Prop where
  numPorts : r.numPorts = site.numPorts
  routerId : r.routerId = site.routerId
  known : ∀ (n : ℕ) direct, r.directNeighbors[n]? = some direct → site.joins direct.port n = true
  ends : ∀ i, (r.ports i).connected = true → site.joins i (r.ports i).toId = true
  distinct : ∀ i j, (r.ports i).connected = true → (r.ports j).connected = true →
    (r.ports i).toId = (r.ports j).toId → i = j

/-- Routes and links are in order. -/
structure Coherent (site : Site) (r : Router) : Prop where
  routed : r.Routed []
  linked : r.Linked site

end Router

open Router

variable {u v : Update} {pending : List ℕ} {site : Site} {r s : Router}

/-! ### Moves -/

theorem Router.Agrees.install (h : r.Agrees) (dest : ℕ) (cell : DVCell) :
    (r.install dest cell).Agrees := by
  refine ⟨fun d => ?_, h.clean⟩
  rw [install_dvMap, install_forwardingTable]
  split_ifs
  · rfl
  · exact h.agree d

theorem Move.agrees (move : Move u v) (h : u.router.Agrees) : v.router.Agrees := by
  cases move with
  | tell found => exact h
  | @reroute dest cell => exact h.install dest cell
  | @reprice dest old cell found same =>
    refine ⟨fun d => ?_, h.clean⟩
    have agree := h.agree d
    simp only [Update.reprice, setCell_dvMap]
    split_ifs with here
    · rw [here, found] at agree
      rw [here, Option.map_some, same]
      exact agree
    · exact agree
  | @withdraw dest cell found =>
    refine ⟨fun d => ?_, ?_⟩
    · simp only [Update.withdraw, drop_dvMap, drop_forwardingTable]
      split_ifs
      · rfl
      · exact h.agree d
    · have listed : u.router.dvMap.contains dest = true := (Table.contains_iff _).mpr ⟨_, found⟩
      have forwarded : u.router.forwardingTable.contains dest = true :=
        (Table.contains_iff _).mpr ⟨cell.nextHop, by rw [h.agree, found]; rfl⟩
      simp [Update.withdraw, drop, h.clean, listed, forwarded]

theorem Move.routed (move : Move u v) (h : u.router.Routed pending) :
    v.router.Routed pending := by
  refine ⟨move.agrees h.toAgrees, ?_, ?_⟩
  -- no move gives the router a route to itself
  · have self := h.self
    cases move with
    | tell found => exact self
    | @reroute dest cell hop other =>
      change (u.router.install dest cell).dvMap[u.router.routerId]? = none
      rw [install_dvMap, if_neg]
      · exact self
      · rintro rfl
        rcases other with other | ⟨old, found⟩
        · exact other rfl
        · rw [self] at found
          cases found
    | @reprice dest old cell found =>
      change (u.router.setCell dest cell).dvMap[u.router.routerId]? = none
      rw [setCell_dvMap, if_neg]
      · exact self
      · rintro rfl
        rw [self] at found
        cases found
    | @withdraw dest cell found =>
      change (u.router.drop dest).dvMap[u.router.routerId]? = none
      rw [drop_dvMap, self]
      split_ifs <;> rfl
  -- the next hop of a route is a neighbour still
  · intro d cell' found' settled
    cases move with
    | tell found => exact h.hops d cell' found' settled
    | @reroute dest cell hop =>
      simp only [Update.reroute, install_dvMap] at found'
      split_ifs at found'
      · cases found'
        exact hop
      · exact h.hops d cell' found' settled
    | @reprice dest old cell found same =>
      simp only [Update.reprice, setCell_dvMap] at found'
      split_ifs at found' with here
      · cases found'
        subst here
        rw [same]
        exact h.hops d old found settled
      · exact h.hops d cell' found' settled
    | @withdraw dest cell found =>
      simp only [Update.withdraw, drop_dvMap] at found'
      split_ifs at found'
      exact h.hops d cell' found' settled

theorem Moves.agrees (moves : Moves u v) (h : u.router.Agrees) : v.router.Agrees := by
  induction moves with
  | refl => exact h
  | tail _ move ih => exact move.agrees ih

theorem Moves.routed (moves : Moves u v) (h : u.router.Routed pending) :
    v.router.Routed pending := by
  induction moves with
  | refl => exact h
  | tail _ move ih => exact move.routed ih

/-- The law of the links speaks of the links only. -/
theorem Router.Linked.congr (h : r.Linked site) (same : r.SameLinks s) : s.Linked site where
  numPorts := same.numPorts.trans h.numPorts
  routerId := same.routerId.trans h.routerId
  known := same.directNeighbors ▸ h.known
  ends := same.ports ▸ h.ends
  distinct := same.ports ▸ h.distinct

/-- Moves keep a router coherent. -/
theorem Moves.coherent (moves : Moves u v) (h : u.router.Coherent site) :
    v.router.Coherent site :=
  ⟨moves.routed h.routed, h.linked.congr moves.sameLinks⟩

namespace Router

/-! ### DV packets -/

/-- Routes stay in order while neighbours are added. -/
theorem Routed.addNeighbor (h : r.Routed pending) (dvMap : s.dvMap = r.dvMap)
    (forwardingTable : s.forwardingTable = r.forwardingTable) (erasedEnd : s.erasedEnd = r.erasedEnd)
    (routerId : s.routerId = r.routerId) (knows : ∀ n, r.Knows n → s.Knows n) :
    s.Routed pending where
  agree := by
    rw [dvMap, forwardingTable]
    exact h.agree
  clean := erasedEnd.trans h.clean
  self := by
    rw [dvMap, routerId]
    exact h.self
  hops dest cell found settled := knows _ (h.hops dest cell (dvMap ▸ found) settled)

theorem Coherent.learnNeighbor (h : r.Coherent site) {port : ℕ} {packet : DVPacket}
    (joins : site.joins port packet.source = true) (junk : ℕ) :
    (r.learnNeighbor port packet junk).Coherent site := by
  unfold Router.learnNeighbor
  split_ifs with known
  · exact h
  refine ⟨h.routed.addNeighbor rfl rfl rfl rfl ?_, h.linked.numPorts, h.linked.routerId, ?_,
    h.linked.ends, h.linked.distinct⟩
  · rintro n ⟨direct, found⟩
    unfold Knows
    rw [Table.getElem?_insert]
    split_ifs
    · exact ⟨_, rfl⟩
    · exact ⟨direct, found⟩
  · intro n direct found
    rw [Table.getElem?_insert] at found
    split_ifs at found with here
    · cases found
      exact here ▸ joins
    · exact h.linked.known n direct found

theorem Coherent.recvDV (h : r.Coherent site) {now port : ℕ} {packet : DVPacket}
    (joins : site.joins port packet.source = true) (junk : ℕ) :
    (r.recvDV now port packet junk).router.Coherent site :=
  (recvDV_moves now port packet junk r).coherent (h.learnNeighbor joins junk)

/-! ### PONG packets -/

theorem Coherent.connect (h : r.Coherent site) {now port src rrt : ℕ}
    (joins : site.joins port src = true) : (r.connect now port src rrt).Coherent site := by
  refine ⟨h.routed.addNeighbor rfl rfl rfl rfl ?_, h.linked.numPorts, h.linked.routerId, ?_, ?_, ?_⟩
  -- neighbours stay known
  · rintro n ⟨direct, found⟩
    unfold Knows
    rw [connect_directNeighbors]
    split_ifs
    · exact ⟨_, rfl⟩
    · exact ⟨direct, found⟩
  · intro n direct found
    rw [connect_directNeighbors] at found
    split_ifs at found with here
    · cases found
      exact here ▸ joins
    · exact h.linked.known n direct found
  · intro i connected
    simp only [Router.connect] at connected ⊢
    by_cases here : i = port
    · rw [if_pos here, here]
      exact joins
    · rw [if_neg here] at connected ⊢
      -- a port that led to the same router is closed
      by_cases stale : (r.ports i).toId = src
      · rw [if_pos stale] at connected
        cases connected
      · rw [if_neg stale] at connected ⊢
        exact h.linked.ends i connected
  · intro i j connectedI connectedJ same
    -- of the ports that led to `src`, only the one of the PONG is connected
    have other : ∀ k, k ≠ port → ((r.connect now port src rrt).ports k).connected = true →
        (r.ports k).connected = true ∧ (r.ports k).toId ≠ src ∧
          ((r.connect now port src rrt).ports k).toId = (r.ports k).toId := by
      intro k away connected
      simp only [Router.connect, if_neg away] at connected ⊢
      by_cases stale : (r.ports k).toId = src
      · rw [if_pos stale] at connected
        cases connected
      · rw [if_neg stale] at connected ⊢
        exact ⟨connected, stale, rfl⟩
    have here : ((r.connect now port src rrt).ports port).toId = src := by
      simp [Router.connect]
    by_cases hi : i = port <;> by_cases hj : j = port
    · rw [hi, hj]
    · subst hi
      obtain ⟨-, away, kept⟩ := other j hj connectedJ
      exact absurd ((kept.symm.trans same.symm).trans here) away
    · subst hj
      obtain ⟨-, away, kept⟩ := other i hi connectedI
      exact absurd ((kept.symm.trans same).trans here) away
    · obtain ⟨oldI, -, keptI⟩ := other i hi connectedI
      obtain ⟨oldJ, -, keptJ⟩ := other j hj connectedJ
      exact h.linked.distinct i j oldI oldJ (keptI.symm.trans (same.trans keptJ))

/-- Updating the time of a route is a change of its cost to what it was. -/
theorem touchEntry_eq (now src : ℕ) (r : Router) (dest : ℕ) :
    r.touchEntry now src dest = r ∨ ∃ cell, r.dvMap[dest]? = some cell ∧
      r.touchEntry now src dest = r.setCell dest { cell with updated := now } := by
  unfold touchEntry
  cases found : r.dvMap[dest]? with
  | none => exact .inl rfl
  | some cell =>
    dsimp only
    split_ifs
    · exact .inr ⟨cell, rfl, rfl⟩
    · exact .inl rfl

theorem touchEntry_moves (now src : ℕ) (r : Router) (dest : ℕ) :
    ∃ adverts, Moves ⟨r, []⟩ ⟨r.touchEntry now src dest, adverts⟩ := by
  rcases touchEntry_eq now src r dest with same | ⟨cell, found, touched⟩
  · rw [same]
    exact ⟨[], .refl⟩
  · rw [touched]
    exact ⟨_, .single (Move.reprice (u := ⟨r, []⟩) found rfl)⟩

/-- A property of routers that every move keeps is kept by the loop that updates times. -/
theorem touchEntries_keep {P : Router → Prop} (keeps : ∀ u v, Moves u v → P u.router → P v.router)
    {now src : ℕ} (dests : List ℕ) (h : P r) : P (dests.foldl (touchEntry now src) r) := by
  induction dests generalizing r with
  | nil => exact h
  | cons dest dests ih =>
    obtain ⟨adverts, moves⟩ := touchEntry_moves now src r dest
    exact ih (keeps _ _ moves h)

/-- The loop over the routes, when its sender is known. -/
theorem updateRoutes_keeps {P : Router → Prop} (keeps : ∀ u v, Moves u v → P u.router → P v.router)
    (now : ℕ) {src : ℕ} (rrt diff : ℕ) (disconnected : Bool) (known : r.Knows src) (h : P r) :
    P (r.updateRoutes now src rrt diff disconnected).router := by
  unfold updateRoutes
  split_ifs
  · exact keeps _ _ (repriceEntries_moves (u := ⟨r, []⟩) known _) h
  · exact touchEntries_keep keeps _ h

/-- The direct route to a neighbour that had none. -/
theorem addNeighbor_keeps {P : Router → Prop} (keeps : ∀ u v, Moves u v → P u.router → P v.router)
    {now src rrt : ℕ} (known : u.router.Knows src) (other : src ≠ u.router.routerId)
    (h : P u.router) : P (addNeighbor now src rrt u).router := by
  unfold addNeighbor
  split_ifs
  · exact h
  · exact keeps u (u.reroute src ⟨src, rrt, now⟩) (.single (.reroute known (.inl other))) h

/-- A property of routers that every move keeps is kept by `handlePong` once the port
and neighbour tables are updated. -/
theorem handlePong_keeps {P : Router → Prop} (keeps : ∀ u v, Moves u v → P u.router → P v.router)
    {now port src time : ℕ} (other : src ≠ r.routerId)
    (h : P (r.connect now port src (sub32 now time))) :
    P (r.handlePong now port src time).router := by
  have known := connect_knows now port src (sub32 now time) r
  have loop := updateRoutes_keeps
    (P := fun s => P s ∧ s.Knows src ∧ s.routerId = r.routerId)
    (fun u v moves old => ⟨keeps u v moves old.1, moves.knows old.2.1,
      moves.sameLinks.routerId.trans old.2.2⟩) now (sub32 now time)
    (sub32 (sub32 now time) (r.ports port).cost) (!(r.ports port).connected) known ⟨h, known, rfl⟩
  exact addNeighbor_keeps keeps loop.2.1 (by rw [loop.2.2]; exact other) loop.1

/-- No packet of a neighbour comes from the router itself. -/
theorem Coherent.source_ne (h : r.Coherent site) {port src : ℕ}
    (joins : site.joins port src = true) : src ≠ r.routerId := by
  rintro rfl
  rw [h.linked.routerId] at joins
  exact site.loopless port (Site.joins_iff.mp joins).2

theorem Coherent.handlePong (h : r.Coherent site) {now port src : ℕ}
    (joins : site.joins port src = true) (time : ℕ) :
    (r.handlePong now port src time).router.Coherent site :=
  handlePong_keeps (fun _ _ moves => moves.coherent) (h.source_ne joins) (h.connect joins)

/-! ### Expiry -/

/-- What the loop over the first `n` ports does: expired ones are closed, the routers
behind them forgotten, and the routes through these listed. -/
structure PortsExpired (now n : ℕ) (r : Router) (s : Router × List ℕ) : Prop where
  protocolType : s.1.protocolType = r.protocolType
  numPorts : s.1.numPorts = r.numPorts
  routerId : s.1.routerId = r.routerId
  dvMap : s.1.dvMap = r.dvMap
  forwardingTable : s.1.forwardingTable = r.forwardingTable
  erasedEnd : s.1.erasedEnd = r.erasedEnd
  ports : ∀ i, s.1.ports i =
    if i < n ∧ (r.ports i).expired now then (r.ports i).close else r.ports i
  directNeighbors : ∀ (m : ℕ) direct, s.1.directNeighbors[m]? = some direct ↔
    r.directNeighbors[m]? = some direct ∧ ∀ i < n, (r.ports i).expired now → (r.ports i).toId ≠ m
  toDelete : s.2 = (((List.range n).filter fun i => (r.ports i).expired now).map
    fun i => r.routesVia (r.ports i).toId).flatten

theorem expirePorts_spec (now n : ℕ) (r : Router) :
    PortsExpired now n r ((List.range n).foldl (expirePort now) (r, [])) := by
  induction n with
  | zero => constructor <;> simp
  | succ n ih =>
    rw [List.range_succ, List.foldl_append, List.foldl_cons, List.foldl_nil]
    generalize (List.range n).foldl (expirePort now) (r, []) = s at ih
    -- the loop has not come to this port yet
    have port : s.1.ports n = r.ports n := by
      rw [ih.ports, if_neg (fun bad => lt_irrefl n bad.1)]
    have listed : ∀ m, s.1.routesVia m = r.routesVia m := fun m => by
      simp only [routesVia, ih.dvMap]
    unfold expirePort
    dsimp only
    rw [port]
    -- an old port is closed and its routes are listed; any other is left
    split_ifs with old
    · refine { ih with ports := fun i => ?_, directNeighbors := fun m direct => ?_, toDelete := ?_ }
      · dsimp only
        by_cases here : i = n
        · subst here
          simp [old]
        · rw [Function.update_of_ne here, ih.ports]
          congr 1
          simp only [eq_iff_iff, and_congr_left_iff]
          omega
      · dsimp only
        rw [Table.getElem?_erase]
        split_ifs with here
        · simp only [false_iff, not_and]
          exact fun _ all => all n (Nat.lt_succ_self n) old here.symm
        · rw [ih.directNeighbors]
          refine and_congr_right fun _ => ⟨fun all i hi expired => ?_, fun all i hi => all i (by omega)⟩
          -- the ports before it are those of the induction hypothesis
          rcases Nat.lt_succ_iff_lt_or_eq.mp hi with less | rfl
          · exact all i less expired
          · exact Ne.symm here
      · simp [List.range_succ, List.filter_append, old, ih.toDelete, listed]
    · refine { ih with ports := fun i => ?_, directNeighbors := fun m direct => ?_, toDelete := ?_ }
      · rw [ih.ports]
        congr 1
        simp only [eq_iff_iff, and_congr_left_iff]
        intro expired
        have : i ≠ n := by
          rintro rfl
          exact old expired
        omega
      · rw [ih.directNeighbors]
        refine and_congr_right fun _ => ⟨fun all i hi expired => ?_, fun all i hi => all i (by omega)⟩
        rcases Nat.lt_succ_iff_lt_or_eq.mp hi with less | rfl
        · exact all i less expired
        · exact absurd expired old
      · simp [List.range_succ, List.filter_append, old, ih.toDelete]

theorem mem_routesVia {m dest : ℕ} :
    dest ∈ r.routesVia m ↔ ∃ cell, r.dvMap[dest]? = some cell ∧ cell.nextHop = m := by
  simp only [routesVia, List.mem_filter, Table.mem_keys_iff, decide_eq_true_eq, Option.map_eq_some_iff]
  exact ⟨fun h => h.2, fun ⟨cell, found, hop⟩ => ⟨⟨cell, found⟩, cell, found, hop⟩⟩

/-- The routes listed for deletion are those through a router whose port expired. -/
theorem PortsExpired.mem_toDelete {now n : ℕ} {t : Router × List ℕ} (h : PortsExpired now n r t)
    {dest : ℕ} : dest ∈ t.2 ↔ ∃ i < n, (r.ports i).expired now = true ∧
      ∃ cell, r.dvMap[dest]? = some cell ∧ cell.nextHop = (r.ports i).toId := by
  rw [h.toDelete]
  simp only [List.mem_flatten, List.mem_map, List.mem_filter, List.mem_range, and_assoc]
  constructor
  · rintro ⟨_, ⟨i, inside, expired, rfl⟩, member⟩
    exact ⟨i, inside, expired, mem_routesVia.mp member⟩
  · rintro ⟨i, inside, expired, via⟩
    exact ⟨_, ⟨i, inside, expired, rfl⟩, mem_routesVia.mpr via⟩

/-- No route is listed twice when the connected ports lead to different routers. -/
theorem PortsExpired.nodup_toDelete {now n : ℕ} {t : Router × List ℕ} (h : PortsExpired now n r t)
    (distinct : ∀ i j, (r.ports i).connected = true → (r.ports j).connected = true →
      (r.ports i).toId = (r.ports j).toId → i = j) : t.2.Nodup := by
  rw [h.toDelete, List.nodup_flatten]
  constructor
  · intro dests member
    obtain ⟨i, -, rfl⟩ := List.mem_map.mp member
    exact r.dvMap.nodup_keys.filter _
  · rw [List.pairwise_map]
    have nodup : ((List.range n).filter fun i => (r.ports i).expired now).Nodup :=
      List.nodup_range.filter _
    refine (List.pairwise_iff_forall_sublist.mpr ?_)
    intro i j sub
    have open_ : ∀ k ∈ [i, j], (r.ports k).connected = true := by
      intro k member
      have expired := (List.mem_filter.mp (sub.subset member)).2
      simp only [Port.expired, Bool.and_eq_true] at expired
      exact expired.1
    have ne : i ≠ j := by
      have := sub.nodup nodup
      simpa using this
    intro dest viaI viaJ
    obtain ⟨cell, found, hop⟩ := mem_routesVia.mp viaI
    obtain ⟨cell', found', hop'⟩ := mem_routesVia.mp viaJ
    cases found.symm.trans found'
    exact ne (distinct i j (open_ i (by simp)) (open_ j (by simp)) (hop.symm.trans hop'))

/-- Deleting one route leaves the others. -/
theorem deleteRoute_dvMap (now : ℕ) (u : Update) {dest d : ℕ} (other : d ≠ dest) :
    (deleteRoute now u dest).router.dvMap[d]? = u.router.dvMap[d]? := by
  unfold deleteRoute
  split <;> simp [Update.reroute, Update.withdraw, other]

/-- The loop over `to_delete` finds every route it looks for. -/
theorem deleteRoutes_moves {now : ℕ} {dests : List ℕ} (nodup : dests.Nodup)
    (found : ∀ dest ∈ dests, ∃ cell, u.router.dvMap[dest]? = some cell) :
    Moves u (dests.foldl (deleteRoute now) u) := by
  induction dests generalizing u with
  | nil => exact .refl
  | cons dest dests ih =>
    obtain ⟨fresh, nodup⟩ := List.nodup_cons.mp nodup
    obtain ⟨cell, here⟩ := found dest List.mem_cons_self
    refine (deleteRoute_moves here).trans (ih nodup fun d member => ?_)
    rw [deleteRoute_dvMap now u (by rintro rfl; exact fresh member)]
    exact found d (List.mem_cons_of_mem _ member)

/-- A deleted route is settled: it is direct or gone. -/
theorem deleteRoute_settles {now dest : ℕ} {cell : DVCell}
    (found : u.router.dvMap[dest]? = some cell) (h : u.router.Routed (dest :: pending)) :
    (deleteRoute now u dest).router.Routed pending := by
  have moved : (deleteRoute now u dest).router.Routed (dest :: pending) :=
    Moves.routed (deleteRoute_moves found) h
  refine { moved with hops := fun d cell' found' settled => ?_ }
  by_cases here : d = dest
  · subst here
    unfold deleteRoute at found' ⊢
    cases direct : u.router.directNeighbors[d]? with
    | none => simp [direct, Update.withdraw] at found'
    | some direct' =>
      simp only [direct, Update.reroute, install_dvMap, if_true, Option.some.injEq] at found'
      subst found'
      exact ⟨direct', direct⟩
  · exact moved.hops d cell' found' (by simp [here, settled])

theorem deleteRoutes_routed {now : ℕ} {dests : List ℕ} (nodup : dests.Nodup)
    (found : ∀ dest ∈ dests, ∃ cell, u.router.dvMap[dest]? = some cell)
    (h : u.router.Routed dests) : (dests.foldl (deleteRoute now) u).router.Routed [] := by
  induction dests generalizing u with
  | nil => exact h
  | cons dest dests ih =>
    obtain ⟨fresh, nodup⟩ := List.nodup_cons.mp nodup
    obtain ⟨cell, here⟩ := found dest List.mem_cons_self
    refine ih nodup (fun d member => ?_) (deleteRoute_settles here h)
    rw [deleteRoute_dvMap now u (by rintro rfl; exact fresh member)]
    exact found d (List.mem_cons_of_mem _ member)

theorem PortsExpired.linked {now n : ℕ} {t : Router × List ℕ} (h : PortsExpired now n r t)
    (linked : r.Linked site) : t.1.Linked site := by
  have kept : ∀ i, (t.1.ports i).connected = true →
      (r.ports i).connected = true ∧ (t.1.ports i).toId = (r.ports i).toId := by
    intro i connected
    rw [h.ports] at connected ⊢
    split_ifs at connected ⊢
    · cases connected
    · exact ⟨connected, rfl⟩
  refine ⟨h.numPorts.trans linked.numPorts, h.routerId.trans linked.routerId, ?_, ?_, ?_⟩
  · intro m direct found
    exact linked.known m direct ((h.directNeighbors m direct).mp found).1
  · intro i connected
    obtain ⟨old, same⟩ := kept i connected
    exact same ▸ linked.ends i old
  · intro i j connectedI connectedJ same
    obtain ⟨oldI, sameI⟩ := kept i connectedI
    obtain ⟨oldJ, sameJ⟩ := kept j connectedJ
    exact linked.distinct i j oldI oldJ (sameI.symm.trans (same.trans sameJ))

/-- A next hop that was forgotten belongs to a listed route. -/
theorem PortsExpired.routed {now n : ℕ} {t : Router × List ℕ} (h : PortsExpired now n r t)
    (routed : r.Routed []) : t.1.Routed t.2 where
  agree := by
    rw [h.dvMap, h.forwardingTable]
    exact routed.agree
  clean := h.erasedEnd.trans routed.clean
  self := by
    rw [h.dvMap, h.routerId]
    exact routed.self
  hops dest cell found settled := by
    rw [h.dvMap] at found
    obtain ⟨direct, known⟩ := routed.hops dest cell found List.not_mem_nil
    refine ⟨direct, (h.directNeighbors _ _).mpr ⟨known, fun i inside expired hop => ?_⟩⟩
    exact settled (h.mem_toDelete.mpr ⟨i, inside, expired, cell, found, hop.symm⟩)

/-- What `refreshDV` does after its loop over the ports. -/
theorem refreshDV_loops (now : ℕ) (r : Router) :
    ∃ t, PortsExpired now r.numPorts r t ∧ r.refreshDV now =
      (t.2.foldl (deleteRoute now) ⟨t.1, []⟩).router.dvMap.keys.foldl (expireEntry now)
        (t.2.foldl (deleteRoute now) ⟨t.1, []⟩) :=
  ⟨_, expirePorts_spec now r.numPorts r, rfl⟩

theorem PortsExpired.listed {now n : ℕ} {t : Router × List ℕ} (h : PortsExpired now n r t)
    {dest : ℕ} (member : dest ∈ t.2) : ∃ cell, t.1.dvMap[dest]? = some cell := by
  obtain ⟨-, -, -, cell, found, -⟩ := h.mem_toDelete.mp member
  exact ⟨cell, by rw [h.dvMap, found]⟩

theorem Coherent.refreshDV (h : r.Coherent site) (now : ℕ) :
    (r.refreshDV now).router.Coherent site := by
  obtain ⟨t, expired, loops⟩ := refreshDV_loops now r
  have nodup := expired.nodup_toDelete h.linked.distinct
  have moves : Moves ⟨t.1, []⟩ (t.2.foldl (deleteRoute now) ⟨t.1, []⟩) :=
    deleteRoutes_moves nodup fun dest member => expired.listed member
  have routed : (t.2.foldl (deleteRoute now) ⟨t.1, []⟩).router.Routed [] :=
    deleteRoutes_routed nodup (fun dest member => expired.listed member) (expired.routed h.routed)
  have linked := (expired.linked h.linked).congr moves.sameLinks
  rw [loops]
  exact (expireEntries_moves _).coherent ⟨routed, linked⟩

/-! ### Data packets and whole calls -/

/-- A coherent router forwards data to the port of its next hop, and adds no neighbour. -/
theorem Routed.recvDATA (h : r.Routed []) (source dest : ℕ) (payload : List UInt8) :
    (r.recvDATA source dest payload).1 = r := by
  unfold Router.recvDATA
  split_ifs
  · rfl
  · cases forward : r.forwardingTable[dest]? with
    | none => rfl
    | some hop =>
      rw [h.agree, Option.map_eq_some_iff] at forward
      obtain ⟨cell, found, rfl⟩ := forward
      obtain ⟨direct, known⟩ := h.hops dest cell found List.not_mem_nil
      simp only [known]

/-- The calls that change a router: it takes in a PONG or a DV packet, or its routes expire. -/
theorem Routed.handle (h : r.Routed []) {I : Router → Prop} {event : Event} (same : I r)
    (pong : ∀ now port source dest time junk, event = .recv now port (.pong source dest time) junk →
      I (r.handlePong now port source time).router)
    (dv : ∀ now port packet junk, event = .recv now port (.dv packet) junk →
      I (r.recvDV now port packet junk).router)
    (expire : ∀ now, event = .alarm now .expire → I (r.refreshDV now).router) :
    I (r.handle event).1 := by
  cases event with
  | recv now port packet junk =>
    cases packet with
    | data source dest payload =>
      rw [handle_data, h.recvDATA]
      exact same
    | ping source time =>
      rw [handle_ping]
      exact same
    | pong source dest time =>
      rw [handle_pong, Update.finish_fst]
      exact pong now port source dest time junk rfl
    | dv packet =>
      rw [handle_dv, Update.finish_fst]
      exact dv now port packet junk rfl
  | alarm now type =>
    cases type with
    | expire =>
      rw [handle_expire]
      split_ifs
      · exact expire now rfl
      · exact same
    | pingPong =>
      rw [handle_pingPong]
      exact same
    | update =>
      rw [handle_update]
      exact same

theorem Coherent.handle (h : r.Coherent site) {event : Event} (admitted : site.admits event = true) :
    (r.handle event).1.Coherent site := by
  apply h.routed.handle (I := fun s => s.Coherent site) h
  case pong =>
    rintro now port source dest time junk rfl
    exact h.handlePong admitted time
  case dv =>
    rintro now port packet junk rfl
    exact h.recvDV admitted junk
  case expire => exact fun now _ => h.refreshDV now

theorem Coherent.start (site : Site) : site.start.Coherent site where
  routed := ⟨⟨by simp [Site.start, Router.init], rfl⟩, by simp [Site.start, Router.init],
    by simp [Site.start, Router.init]⟩
  linked := by constructor <;> simp [Site.start, Router.init]

theorem Coherent.step (h : r.Coherent site) {event : Event} (next : site.step r event = some s) :
    s.Coherent site := by
  obtain ⟨admitted, rfl⟩ := Site.step_eq_some.mp next
  exact h.handle admitted

end Router

theorem Site.Reaches.coherent (reach : site.Reaches r) : r.Coherent site :=
  reach.invariant (fun _ same => same ▸ .start site) fun _ _ _ h next => h.step next

/-- In every state a router can reach: the two route tables agree, the router has no
route to itself, every next hop is a neighbour behind a port that leads to it, connected
ports lead to different routers, no erasure has ever missed its key, and a data packet
adds no neighbour. -/
theorem Site.coherence (reach : site.Reaches r) :
    (∀ dest : ℕ, r.forwardingTable[dest]? = r.dvMap[dest]?.map DVCell.nextHop) ∧
    r.dvMap.contains site.routerId = false ∧
    (∀ (dest : ℕ) cell, r.dvMap[dest]? = some cell →
      ∃ direct, r.directNeighbors[cell.nextHop]? = some direct ∧
        direct.port < site.numPorts ∧ site.neighbor direct.port = some cell.nextHop) ∧
    (∀ i j, (r.ports i).connected = true → (r.ports j).connected = true →
      (r.ports i).toId = (r.ports j).toId → i = j) ∧
    r.erasedEnd = false ∧
    ∀ source dest payload,
      (r.recvDATA source dest payload).1.directNeighbors = r.directNeighbors := by
  have h := reach.coherent
  refine ⟨h.routed.agree, ?_, fun dest cell found => ?_, h.linked.distinct, h.routed.clean,
    fun source dest payload => by rw [h.routed.recvDATA]⟩
  · rw [Table.contains_eq_false_iff, ← h.linked.routerId]
    exact h.routed.self
  · obtain ⟨direct, known⟩ := h.routed.hops dest cell found List.not_mem_nil
    exact ⟨direct, known, Site.joins_iff.mp (h.linked.known _ _ known)⟩

/-- Router 1 with two links, to routers 2 and 3. -/
def twoLinks : Site where
  numPorts := 2
  routerId := 1
  protocolType := .dv
  neighbor port := if port = 0 then some 2 else if port = 1 then some 3 else none
  loopless port := by split_ifs <;> simp

/-- Both neighbours answer a PING, 3 offers a route to 2, and the link to 2 dies. -/
def twoLinksRun : List Event :=
  [.recv 10 0 (.pong 2 1 0) 0, .recv 12 1 (.pong 3 1 4) 0,
    .recv 20 1 (.dv ⟨16, 3, 1, [(1, 8), (2, 1)]⟩) 0, .recv 14000 1 (.pong 3 1 13990) 0,
    .alarm 16000 .expire]

/-- After that run the tables are in order. -/
theorem twoLinksRun_coherent : ∃ r, exec twoLinks.step twoLinks.start twoLinksRun = some r ∧
    r.dvMap.contains 1 = false ∧ r.erasedEnd = false := by
  obtain ⟨r, run⟩ : ∃ r, exec twoLinks.step twoLinks.start twoLinksRun = some r := ⟨_, rfl⟩
  have coherent := Site.coherence ⟨_, twoLinksRun, rfl, run⟩
  exact ⟨r, run, coherent.2.1, coherent.2.2.2.2.1⟩

end ComputerNetworks.Routing
