import ComputerNetworks.Lib.Simulation
import ComputerNetworks.Routing.Convergence

/-!
# A DATA packet in a static network

A DATA packet goes from router to router by `recvDATA`, while the tables it is forwarded by
still change and other DATA packets pass. Where its first router has a route, every router
it comes to has one, and what is left to go costs less than what was left before. So the
packet is neither dropped nor sent in circles, even before the routes have settled.
-/

namespace ComputerNetworks.Routing

open Lib Lib.DistanceVector

/-- Where a DATA packet is. -/
inductive Place
  /-- About to be handled by this router. -/
  | held (router : ℕ)
  /-- Deleted by the router it is for. -/
  | delivered
  /-- Not sent on, or sent where there is no link. -/
  | dropped
  deriving DecidableEq, Repr

/-- A static network, and a DATA packet in it with the number of routers that have handled
it and what the links it has taken cost. -/
structure Trip where
  net : StaticNetwork
  place : Place
  hops : ℕ
  travelled : ℕ

/-- What can happen next. -/
inductive TripAction
  /-- An event of the static network. -/
  | table (action : StaticAction)
  /-- A router handles another DATA packet. -/
  | data (router now port source dest : ℕ) (payload : List UInt8)
  /-- The DATA packet is handled where it is. -/
  | hop (now port : ℕ)

/-- The event of the static network in an action. -/
def TripAction.table? : TripAction → Option StaticAction
  | .table action => some action
  | _ => none

namespace Trip

variable (links : Links) (source dest : ℕ) (payload : List UInt8)

/-- The place of the packet after router `r` has handled it, and the cost of the link it took;
`recvDATA` sends at most one packet. -/
def passOn (r : ℕ) (sends : List Send) : Place × ℕ :=
  match sends with
  | [] => (if dest = r then .delivered else .dropped, 0)
  | send :: _ =>
    match links.peer r send.1 with
    | some (s, _) => (.held s, links.rtt r s)
    | none => (.dropped, 0)

/-- The transition function. -/
def step (trip : Trip) : TripAction → Option Trip
  | .table action => (trip.net.step links action).map fun net => { trip with net }
  | .data r now port source dest payload =>
    some { trip with net := trip.net.call links r (.recv now port (.data source dest payload) 0) }
  | .hop now port =>
    match trip.place with
    | .held r =>
      let event := Event.recv now port (.data source dest payload) 0
      let next := passOn links dest r ((trip.net.routers r).handle event).2
      some
        { net := trip.net.call links r event
          place := next.1
          hops := trip.hops + 1
          travelled := trip.travelled + next.2 }
    | _ => none

/-- The packet arrives at router `r`. -/
def start (net : StaticNetwork) (r : ℕ) : Trip := ⟨net, .held r, 0, 0⟩

end Trip

namespace StaticNetwork

variable {links : Links} {net net' : StaticNetwork} {r : ℕ}

/-- The invariant of a static network, with coherent routers. -/
structure Sound (links : Links) (net : StaticNetwork) : Prop where
  inv : net.Inv links
  coherent : ∀ r, (net.routers r).Coherent (links.site r)

/-- A call that the site of its router admits leaves every router coherent. -/
theorem coherent_call (net : StaticNetwork) (h : ∀ r, (net.routers r).Coherent (links.site r)) {event : Event}
    (admitted : (links.site r).admits event = true) (v : ℕ) :
    ((net.call links r event).routers v).Coherent (links.site v) := by
  by_cases here : v = r
  · subst here
    simpa [call] using (h v).handle admitted
  · simpa [call, here] using h v

theorem joins_of_peer {i n j : ℕ} (peer : links.peer r i = some (n, j)) :
    (links.site r).joins i n = true :=
  Site.joins_iff.mpr ⟨links.inside r i n j peer, by simp [Topology.site, peer]⟩

theorem Sound.step (h : net.Sound links)
    (small : links.graph.total links.nodes.toFinset < infinityCost) {action : StaticAction}
    (next : net.step links action = some net') : net'.Sound links := by
  refine ⟨(h.inv.step small next).1, ?_⟩
  cases action with
  | pong r i now time =>
    simp only [StaticNetwork.step] at next
    cases peer : links.peer r i with
    | none => simp [peer] at next
    | some other =>
      simp only [peer, Option.ite_none_right_eq_some, Option.some.injEq] at next
      obtain ⟨-, rfl⟩ := next
      exact coherent_call (net.hear r other.1) h.coherent (joins_of_peer peer)
  | deliver r i now junk =>
    simp only [StaticNetwork.step] at next
    cases peer : links.peer r i with
    | none => simp [peer] at next
    | some other =>
      simp only [peer] at next
      cases head : net.chan other.1 r with
      | nil => simp [head] at next
      | cons packet rest =>
        simp only [head, Option.ite_none_right_eq_some, Option.some.injEq] at next
        obtain ⟨-, rfl⟩ := next
        obtain ⟨source, -⟩ := h.inv.packets other.1 r packet (head ▸ List.mem_cons_self)
        refine coherent_call (net.drop other.1 r) h.coherent ?_
        change (links.site r).joins i packet.source = true
        rw [source]
        exact joins_of_peer peer
  | update r now =>
    cases next
    exact coherent_call net h.coherent rfl

theorem Sound.start (links : Links) : (start links).Sound links :=
  ⟨.start links, fun r => .start (links.site r)⟩

/-- A DATA packet changes nothing but where it is. -/
theorem Sound.call_data (h : net.Sound links) (r now port source dest junk : ℕ)
    (payload : List UInt8) :
    net.call links r (.recv now port (.data source dest payload) junk) = net := by
  have same := (h.coherent r).routed.recvDATA source dest payload
  have silent : ∀ b, dvTo links r b ((net.routers r).recvDATA source dest payload).2 = [] := by
    intro b
    unfold Router.recvDATA
    split_ifs
    · rfl
    · cases (net.routers r).forwardingTable[dest]? with
      | none => rfl
      | some hop => cases found : (net.routers r).directNeighbors[hop]? <;> simp [dvTo, found]
  unfold call
  rw [Router.handle_data, same, Function.update_eq_self]
  congr 1
  funext a b
  split_ifs with here
  · rw [here, silent, List.append_nil]
  · rfl

/-- A router with a route sends a DATA packet to the next hop. -/
theorem Sound.forwards (h : net.Sound links) {d : ℕ} {cell : DVCell}
    (found : (net.routers r).dvMap[d]? = some cell) (source : ℕ) (payload : List UInt8) :
    ∃ i j, links.peer r i = some (cell.nextHop, j) ∧
      ((net.routers r).recvDATA source d payload).2 = [(i, .data source d payload)] := by
  have routed := (h.coherent r).routed
  have other : d ≠ (net.routers r).routerId := by
    rintro rfl
    rw [routed.self] at found
    cases found
  obtain ⟨direct, known⟩ := routed.hops d cell found List.not_mem_nil
  obtain ⟨-, ⟨j, peer⟩, -⟩ := ((h.inv.flow.wired r).known _ _).mp known
  refine ⟨direct.port, j, peer, ?_⟩
  have forward := routed.agree d
  rw [found, Option.map_some] at forward
  simp only [Router.recvDATA, if_neg other, forward, known]

/-- The next hop is the destination, or has a route that costs less by the link to it. -/
theorem Sound.nextHop (h : net.Sound links) {d : ℕ} {cell : DVCell}
    (found : (net.routers r).dvMap[d]? = some cell) :
    links.rtt r cell.nextHop ≤ cell.cost ∧ (cell.nextHop = d ∨
      ∃ next, (net.routers cell.nextHop).dvMap[d]? = some next ∧
        next.cost + links.rtt r cell.nextHop ≤ cell.cost) := by
  obtain ⟨w, edge, near⟩ :=
    (h.inv.flow.routes d).sound.nearer (Flow.view_entry_of_found (f := net.flow) found)
  obtain ⟨-, rfl⟩ := Links.weight_eq_some_iff.mp edge
  rcases near with ⟨here, le⟩ | ⟨k, cost, le⟩
  · exact ⟨le, .inl here⟩
  · refine ⟨by omega, .inr ?_⟩
    obtain ⟨route, entry, rfl⟩ := Option.map_eq_some_iff.mp cost
    obtain ⟨next, found', rfl⟩ := Option.map_eq_some_iff.mp entry
    exact ⟨next, found', le⟩

/-- Once everything is handled, a connected router has a route at its distance. -/
theorem Sound.connected (h : net.Sound links) (quiet : net.Quiet links) {d c : ℕ} (other : r ≠ d)
    (distance : links.graph.IsDistance d r c) :
    ∃ cell, (net.routers r).dvMap[d]? = some cell ∧ cell.cost = c := by
  have heard : ∀ u v w, links.graph.weight u v = some w → (net.flow.view d).heard u v = true := by
    intro u v w edge
    obtain ⟨⟨i, j, peer⟩, -⟩ := Links.weight_eq_some_iff.mp edge
    exact quiet.heard u i v j peer
  have empty : ∀ u v w, links.graph.weight u v = some w → (net.flow.view d).chan v u = [] := by
    intro u v w edge
    obtain ⟨⟨i, j, peer⟩, -⟩ := Links.weight_eq_some_iff.mp edge
    change costsOf d ((net.chan v u).flatMap DVPacket.received) = []
    rw [quiet.empty u i v j peer]
    rfl
  obtain ⟨hop, entry⟩ := (h.inv.flow.routes d).exact heard empty other distance
  obtain ⟨cell, found, same⟩ := Option.map_eq_some_iff.mp entry
  exact ⟨cell, found, congrArg Prod.snd same⟩

/-- Then the cost of a route is the distance. -/
theorem Sound.isDistance (h : net.Sound links) (quiet : net.Quiet links) {d : ℕ} {cell : DVCell}
    (found : (net.routers r).dvMap[d]? = some cell) : links.graph.IsDistance d r cell.cost := by
  have routes := h.inv.flow.routes d
  have entry : (net.flow.view d).entry r = some cell.route := Flow.view_entry_of_found found
  obtain ⟨c, -, distance⟩ := routes.distance_le entry
  obtain ⟨cell', found', rfl⟩ := h.connected quiet (routes.sound.ne_target entry) distance
  rw [found, Option.some.injEq] at found'
  exact found' ▸ distance

end StaticNetwork

namespace Trip

variable {links : Links} {source d r budget : ℕ} {payload : List UInt8} {trip trip' : Trip}

/-- What holds of a packet for `d` that came to router `r` when the route there cost `budget`:
what is left to go fits what is left of the budget. -/
structure Within (links : Links) (d r budget : ℕ) (trip : Trip) : Prop where
  sound : trip.net.Sound links
  spent : trip.travelled ≤ budget
  place : ∃ s, (trip.place = .held s ∧ trip.hops ≤ trip.travelled ∨ trip.place = .delivered ∧ s = d) ∧
    (s = d ∨ ∃ cell, (trip.net.routers s).dvMap[d]? = some cell ∧ trip.travelled + cell.cost ≤ budget) ∧
      ∀ c, links.graph.Walk d s c → links.graph.Walk d r (c + trip.travelled)

theorem Within.table (h : trip.Within links d r budget)
    (small : links.graph.total links.nodes.toFinset < infinityCost) {action : StaticAction}
    {net : StaticNetwork} (next : trip.net.step links action = some net) :
    Within links d r budget { trip with net } := by
  obtain ⟨s, place, route, walk⟩ := h.place
  refine ⟨h.sound.step small next, h.spent, s, place, ?_, walk⟩
  -- the route at the router may have changed, but not for a worse one
  rcases route with here | ⟨cell, found, fits⟩
  · exact .inl here
  · obtain ⟨cell', found', le⟩ := (h.sound.inv.step small next).2 s d cell found
    exact .inr ⟨cell', found', (Nat.add_le_add_left le _).trans fits⟩

/-- The router the packet is for deletes it. -/
theorem Within.hop_of_arrived (h : trip.Within links d r budget) (held : trip.place = .held d)
    (now port : ℕ) : trip.step links source d payload (.hop now port) =
      some { trip with place := .delivered, hops := trip.hops + 1 } := by
  have routerId : (trip.net.routers d).routerId = d := (h.sound.coherent d).linked.routerId
  have sends : ((trip.net.routers d).recvDATA source d payload).2 = [] := by
    rw [Router.recvDATA, if_pos routerId.symm]
  simp only [step, held, h.sound.call_data, Router.handle_data, sends, passOn, if_pos, Nat.add_zero]

/-- Another router sends the packet to the next hop of its route. -/
theorem Within.hop_of_found (h : trip.Within links d r budget) {s : ℕ} (held : trip.place = .held s)
    {cell : DVCell} (found : (trip.net.routers s).dvMap[d]? = some cell) (now port : ℕ) :
    trip.step links source d payload (.hop now port) =
      some { trip with
        place := .held cell.nextHop
        hops := trip.hops + 1
        travelled := trip.travelled + links.rtt s cell.nextHop } := by
  obtain ⟨i, j, peer, sends⟩ := h.sound.forwards found source payload
  simp only [step, held, h.sound.call_data, Router.handle_data, sends, passOn, peer]

/-- A packet that is not delivered can be handled, and stays within its budget. -/
theorem Within.hop (h : trip.Within links d r budget) (source : ℕ) (payload : List UInt8) {s : ℕ}
    (held : trip.place = .held s) (now port : ℕ) : ∃ trip', trip.step links source d payload (.hop now port) = some trip' ∧
      trip'.Within links d r budget ∧ trip'.net = trip.net := by
  obtain ⟨s', place, route, walk⟩ := h.place
  have same : s' = s ∧ trip.hops ≤ trip.travelled := by
    rcases place with ⟨held', few⟩ | ⟨delivered, -⟩
    · rw [held, Place.held.injEq] at held'
      exact ⟨held'.symm, few⟩
    · rw [held] at delivered
      cases delivered
  obtain ⟨rfl, few⟩ := same
  by_cases arrived : s' = d
  · subst arrived
    exact ⟨_, h.hop_of_arrived held now port, ⟨h.sound, h.spent, s', .inr ⟨rfl, rfl⟩, .inl rfl, walk⟩, rfl⟩
  · obtain ⟨cell, found, fits⟩ := route.resolve_left arrived
    obtain ⟨i, j, peer, -⟩ := h.sound.forwards found source payload
    have positive := links.rtt_pos s' i _ j peer
    obtain ⟨link, near⟩ := h.sound.nextHop found
    refine ⟨_, h.hop_of_found held found now port, ⟨h.sound, by dsimp only; omega, cell.nextHop,
      .inl ⟨rfl, by dsimp only; omega⟩, ?_, fun c rest => ?_⟩, rfl⟩
    · rcases near with here | ⟨next, found', le⟩
      · exact .inl here
      · exact .inr ⟨next, found', by dsimp only; omega⟩
    · have longer := walk _ (.cons (Links.weight_of_peer peer) rest)
      rwa [Nat.add_assoc, Nat.add_comm (links.rtt s' cell.nextHop)] at longer

/-- Every step keeps a packet within its budget, and is a step of the static network or none
for it. -/
theorem Within.step (h : trip.Within links d r budget)
    (small : links.graph.total links.nodes.toFinset < infinityCost) {action : TripAction}
    (next : trip.step links source d payload action = some trip') :
    trip'.Within links d r budget ∧
      exec (StaticNetwork.step links) trip.net action.table?.toList = some trip'.net := by
  cases action with
  | table action =>
    obtain ⟨net, moved, rfl⟩ := Option.map_eq_some_iff.mp next
    exact ⟨h.table small moved, exec_singleton moved⟩
  | data s now port source dest payload =>
    simp only [Trip.step, h.sound.call_data, Option.some.injEq] at next
    subst next
    exact ⟨h, rfl⟩
  | hop now port =>
    obtain ⟨s, ⟨held, -⟩ | ⟨delivered, -⟩, -⟩ := h.place
    · obtain ⟨trip'', next', within, same⟩ := h.hop source payload held now port
      rw [next, Option.some.injEq] at next'
      subst next'
      exact ⟨within, congrArg some same.symm⟩
    · simp [Trip.step, delivered] at next

/-- Wherever the tables stand and however they go on changing, a DATA packet that comes to a
router with a route is at its destination after at most as many hops as the route costs, over
links that cost no more than the route; until then it can be handled where it is. It does not
disturb the tables. Once they have settled, it takes a shortest path. -/
theorem delivered_of_route (links : Links)
    (small : links.graph.total links.nodes.toFinset < infinityCost) {net : StaticNetwork}
    (reach : Reachable (StaticNetwork.step links) (fun s => s = .start links) net) {r d : ℕ}
    {cell : DVCell} (found : (net.routers r).dvMap[d]? = some cell) (source : ℕ)
    (payload : List UInt8) {as : List TripAction} {trip : Trip}
    (run : exec (step links source d payload) (start net r) as = some trip) :
    exec (StaticNetwork.step links) net (as.filterMap TripAction.table?) = some trip.net ∧
      trip.travelled ≤ cell.cost ∧
        (trip.place = .delivered ∧ links.graph.Walk d r trip.travelled ∧
            (net.Quiet links → links.graph.IsDistance d r trip.travelled) ∨
          trip.hops ≤ cell.cost ∧
            ∀ now port, (trip.step links source d payload (.hop now port)).isSome = true) := by
  have sound : net.Sound links := reach.invariant (fun s first => first ▸ .start links)
    fun s action t h next => h.step small next
  have within : (start net r).Within links d r cell.cost :=
    ⟨sound, Nat.zero_le _, r, .inl ⟨rfl, Nat.le_refl 0⟩,
      .inr ⟨cell, found, (Nat.zero_add _).le⟩, fun _ => id⟩
  obtain ⟨h, moved⟩ := exec_filterMap (fun t _ _ h next => Within.step h small next) within run
  refine ⟨moved, h.spent, ?_⟩
  obtain ⟨s, ⟨held, few⟩ | ⟨delivered, rfl⟩, -, walk⟩ := h.place
  · refine .inr ⟨few.trans h.spent, fun now port => ?_⟩
    obtain ⟨next, enabled, -⟩ := h.hop source payload held now port
    rw [enabled]
    rfl
  · have whole : links.graph.Walk s r trip.travelled := by simpa using walk 0 .nil
    refine .inl ⟨delivered, whole, fun quiet => ?_⟩
    have distance := sound.isDistance quiet found
    rwa [Nat.le_antisymm h.spent (distance.least _ whole)]

/-- Router 1 of two routers hears the other and handles a DATA packet for it; its table is sent
before the packet arrives. -/
theorem oneLink_delivered : ∃ net trip,
    exec (StaticNetwork.step Links.oneLink) (.start Links.oneLink) [.pong 1 0 10 0] = some net ∧
      exec (step Links.oneLink 1 2 []) (start net 1)
        [.hop 11 0xffff, .table (.update 1 12), .hop 13 0] = some trip ∧
      trip.place = .delivered ∧ Links.oneLink.graph.Walk 2 1 trip.travelled := by
  obtain ⟨net, first⟩ : ∃ net, exec (StaticNetwork.step Links.oneLink) (.start Links.oneLink)
      [.pong 1 0 10 0] = some net := ⟨_, rfl⟩
  have route : (exec (StaticNetwork.step Links.oneLink) (.start Links.oneLink) [.pong 1 0 10 0]).bind
      (fun net => (net.routers 1).dvMap[(2 : ℕ)]?) = some ⟨2, 10, 10⟩ := by decide +kernel
  have place : ((exec (StaticNetwork.step Links.oneLink) (.start Links.oneLink) [.pong 1 0 10 0]).bind
      fun net => exec (step Links.oneLink 1 2 []) (start net 1)
        [.hop 11 0xffff, .table (.update 1 12), .hop 13 0]).map Trip.place = some .delivered := by
    decide +kernel
  rw [first, Option.bind_some] at route place
  obtain ⟨trip, run, delivered⟩ := Option.map_eq_some_iff.mp place
  refine ⟨net, trip, first, run, delivered, ?_⟩
  obtain ⟨-, -, ⟨-, walk, -⟩ | ⟨-, enabled⟩⟩ := delivered_of_route Links.oneLink
    (by decide +kernel) ⟨_, _, rfl, first⟩ route 1 [] run
  · exact walk
  · have stuck := enabled 0 0
    simp [step, delivered] at stuck

end Trip

end ComputerNetworks.Routing
