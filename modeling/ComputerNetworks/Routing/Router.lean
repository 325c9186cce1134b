import ComputerNetworks.Routing.Tables

/-!
# `RoutingProtocolImpl`

What a router does with the packets and alarms it gets. An operation returns the
router behind it and what it sends. While an operation runs, an `Update` holds the
router and the vector `new_packet` of the pairs collected so far.
-/

namespace ComputerNetworks.Routing

namespace Router

/-- Write a route to `dv_map` and its next hop to `forwarding_table`. -/
def install (dest : ℕ) (cell : DVCell) (r : Router) : Router :=
  { r with
    dvMap := r.dvMap.insert dest cell
    forwardingTable := r.forwardingTable.insert dest cell.nextHop }

/-- Write a route to `dv_map` only. -/
def setCell (dest : ℕ) (cell : DVCell) (r : Router) : Router :=
  { r with dvMap := r.dvMap.insert dest cell }

/-- `erase(find(dest))` on `dv_map` and `forwarding_table`. -/
def drop (dest : ℕ) (r : Router) : Router :=
  { r with
    dvMap := r.dvMap.erase dest
    forwardingTable := r.forwardingTable.erase dest
    erasedEnd := r.erasedEnd || !(r.dvMap.contains dest && r.forwardingTable.contains dest) }

/-- The pairs of all routes, in the order of the map. -/
def fullTable (r : Router) : List Advert :=
  r.dvMap.toList.map fun entry => .route entry.1 entry.2.cost

/-- The DV packet for the router at port `i`. -/
def dvPacket (r : Router) (adverts : List Advert) (i : ℕ) : DVPacket where
  size := (adverts.length * 4 + 8) % 2 ^ 16
  source := r.routerId
  dest := (r.ports i).toId
  pairs := adverts.map Advert.pair

/-- One DV packet to every connected port. -/
def sendDVUpdate (r : Router) (adverts : List Advert) : List Send :=
  ((List.range r.numPorts).filter fun i => (r.ports i).connected).map
    fun i => (i, .dv (r.dvPacket adverts i))

/-- The full table, sent also when it is empty. -/
def updateDVTable (r : Router) : List Send := r.sendDVUpdate r.fullTable

/-- A PING to every port. -/
def generatePingPongMsg (now : ℕ) (r : Router) : List Send :=
  (List.range r.numPorts).map fun i => (i, .ping r.routerId now)

end Router

/-- The state inside an operation: the router and `new_packet`. -/
structure Update where
  router : Router
  newPacket : List Advert

namespace Update

/-- `new_packet.push_back`. -/
def tell (advert : Advert) (u : Update) : Update := { u with newPacket := u.newPacket ++ [advert] }

/-- Install a route and push its pair. -/
def reroute (dest : ℕ) (cell : DVCell) (u : Update) : Update :=
  ⟨u.router.install dest cell, u.newPacket ++ [.route dest cell.cost]⟩

/-- Change a route in place and push its pair. -/
def reprice (dest : ℕ) (cell : DVCell) (u : Update) : Update :=
  ⟨u.router.setCell dest cell, u.newPacket ++ [.route dest cell.cost]⟩

/-- Drop a route and push that it is gone. -/
def withdraw (dest : ℕ) (u : Update) : Update :=
  ⟨u.router.drop dest, u.newPacket ++ [.withdrawn dest]⟩

/-- The end of an operation: send `new_packet` unless it is empty. -/
def finish (u : Update) : Router × List Send :=
  (u.router, if u.newPacket = [] then [] else u.router.sendDVUpdate u.newPacket)

@[simp] theorem finish_fst (u : Update) : u.finish.1 = u.router := rfl

end Update

namespace Router

/-! ### DV packets -/

/-- A source that is not a direct neighbour becomes one. Its cost is read from the
first pair about this router; without such a pair it is uninitialised memory, `junk`. -/
def learnNeighbor (port : ℕ) (packet : DVPacket) (junk : ℕ) (r : Router) : Router :=
  if r.directNeighbors.contains packet.source then r
  else
    let cost := ((packet.received.find? fun pair => pair.1 = r.routerId).map Prod.snd).getD junk
    { r with directNeighbors := r.directNeighbors.insert packet.source ⟨cost, port⟩ }

/-- One pair of a DV packet from `source`, to which the link costs `link`. -/
def recvPair (now source link : ℕ) (u : Update) (pair : ℕ × ℕ) : Update :=
  let dest := pair.1
  let cost := pair.2
  let sum := (cost + link) % 2 ^ 32
  match u.router.dvMap[dest]? with
  | some cell =>
    if cost ≠ infinityCost then
      if sum < cell.cost then u.reroute dest ⟨source, sum, now⟩
      else if source = cell.nextHop then
        match u.router.directNeighbors[dest]? with
        | none => u.reroute dest ⟨source, sum, now⟩
        | some direct =>
          if sum < direct.cost then u.reroute dest ⟨source, sum, now⟩
          else u.reroute dest ⟨dest, direct.cost, now⟩
      else u
    else if source = cell.nextHop then
      match u.router.directNeighbors[dest]? with
      | some direct => u.reroute dest ⟨dest, direct.cost, now⟩
      | none => u.withdraw dest
    else
      -- the pair is pushed twice
      (u.tell (.route dest cell.cost)).tell (.route dest cell.cost)
  | none =>
    if cost ≠ infinityCost ∧ dest ≠ u.router.routerId then u.reroute dest ⟨source, sum, now⟩
    else u

/-- The cost of the link to a neighbour, 0 for a default-inserted one. -/
def linkCost (r : Router) (n : ℕ) : ℕ := (r.directNeighbors[n]?.map NNCell.cost).getD 0

/-- `recvDV` up to its `sendDVUpdate`. -/
def recvDV (now port : ℕ) (packet : DVPacket) (junk : ℕ) (r : Router) : Update :=
  let r := r.learnNeighbor port packet junk
  packet.received.foldl (recvPair now packet.source (r.linkCost packet.source)) ⟨r, []⟩

/-! ### PING and PONG -/

/-- The port and neighbour tables after a PONG from `src` on `port`. A port that led
to `src` before is taken for dead. -/
def connect (now port src rrt : ℕ) (r : Router) : Router :=
  { r with
    directNeighbors := r.directNeighbors.insert src ⟨rrt, port⟩
    ports := fun i =>
      if i = port then ⟨src, rrt, now, true⟩
      else if (r.ports i).toId = src then { r.ports i with connected := false }
      else r.ports i }

/-- The loop over `dv_map` after the round trip time to `src` changed by `diff`. -/
def repriceEntry (now src rrt diff : ℕ) (disconnected : Bool) (u : Update) (dest : ℕ) : Update :=
  match u.router.dvMap[dest]? with
  | none => u
  | some cell =>
    if cell.nextHop = src then
      let maychangeCost := (cell.cost + diff) % 2 ^ 16
      match u.router.directNeighbors[dest]? with
      | some direct =>
        if direct.cost ≤ maychangeCost then u.reroute dest ⟨dest, direct.cost, now⟩
        -- a longer direct link keeps the old cost
        else u.reprice dest { cell with updated := now }
      | none => u.reprice dest ⟨cell.nextHop, maychangeCost, now⟩
    else if dest = src ∧ rrt ≤ cell.cost then u.reroute dest ⟨src, rrt, now⟩
    else if disconnected ∧ u.router.dvMap.contains src then u.tell (.route dest cell.cost)
    else u

/-- The loop over `dv_map` when the round trip time did not change. -/
def touchEntry (now src : ℕ) (r : Router) (dest : ℕ) : Router :=
  match r.dvMap[dest]? with
  | none => r
  | some cell =>
    if cell.nextHop = src ∨ dest = src then r.setCell dest { cell with updated := now } else r

/-- A neighbour without a route gets its direct one, and the whole table is pushed. -/
def addNeighbor (now src rrt : ℕ) (u : Update) : Update :=
  if u.router.dvMap.contains src then u
  else
    let r := u.router.install src ⟨src, rrt, now⟩
    ⟨r, u.newPacket ++ r.fullTable⟩

/-- The loop over `dv_map` for a change `diff` of the round trip time. -/
def updateRoutes (now src rrt diff : ℕ) (disconnected : Bool) (r : Router) : Update :=
  if diff ≠ 0 then r.dvMap.keys.foldl (repriceEntry now src rrt diff disconnected) ⟨r, []⟩
  else ⟨r.dvMap.keys.foldl (touchEntry now src) r, []⟩

/-- `handlePingPong` on a PONG from `src`, sent at `time`. -/
def handlePong (now port src time : ℕ) (r : Router) : Update :=
  let rrt := sub32 now time
  let diff := sub32 rrt (r.ports port).cost
  let disconnected := !(r.ports port).connected
  addNeighbor now src rrt
    ((r.connect now port src rrt).updateRoutes now src rrt diff disconnected)

/-! ### Expiry -/

/-- The destinations whose route has next hop `n`, in the order of the map. -/
def routesVia (n : ℕ) (r : Router) : List ℕ :=
  r.dvMap.keys.filter fun dest => r.dvMap[dest]?.map DVCell.nextHop = some n

/-- The first loop of `refreshDV`: an old port is closed, its neighbour forgotten and
the routes through it put on a list. -/
def expirePort (now : ℕ) (s : Router × List ℕ) (i : ℕ) : Router × List ℕ :=
  let port := s.1.ports i
  if port.expired now then
    ({ s.1 with
        ports := Function.update s.1.ports i port.close
        directNeighbors := s.1.directNeighbors.erase port.toId },
      s.2 ++ s.1.routesVia port.toId)
  else s

/-- A lost route is replaced by the direct link, if there is one, or dropped. -/
def deleteRoute (now : ℕ) (u : Update) (dest : ℕ) : Update :=
  match u.router.directNeighbors[dest]? with
  | some direct => u.reroute dest ⟨dest, direct.cost, now⟩
  | none => u.withdraw dest

/-- The last loop of `refreshDV`: old routes are lost. -/
def expireEntry (now : ℕ) (u : Update) (dest : ℕ) : Update :=
  match u.router.dvMap[dest]? with
  | none => u
  | some cell => if 45000 < sub32 now cell.updated then deleteRoute now u dest else u

/-- `refreshDV` up to its `sendDVUpdate`. -/
def refreshDV (now : ℕ) (r : Router) : Update :=
  let (r, toDelete) := (List.range r.numPorts).foldl (expirePort now) (r, [])
  let u := toDelete.foldl (deleteRoute now) ⟨r, []⟩
  u.router.dvMap.keys.foldl (expireEntry now) u

/-! ### Data packets -/

/-- Forwarding a data packet; `operator[]` default-inserts an unknown next hop. -/
def recvDATA (source dest : ℕ) (payload : List UInt8) (r : Router) : Router × List Send :=
  if dest = r.routerId then (r, [])
  else
    match r.forwardingTable[dest]? with
    | none => (r, [])
    | some hop =>
      match r.directNeighbors[hop]? with
      | some cell => (r, [(cell.port, .data source dest payload)])
      | none =>
        ({ r with directNeighbors := r.directNeighbors.insert hop ⟨0, 0⟩ },
          [(0, .data source dest payload)])

/-! ### Entry points -/

/-- `recv`. -/
def recv (now port : ℕ) (packet : Packet) (junk : ℕ) (r : Router) : Router × List Send :=
  match packet with
  | .data source dest payload => r.recvDATA source dest payload
  | .ping source time => (r, [(port, .pong r.routerId source time)])
  | .pong source _ time => (r.handlePong now port source time).finish
  | .dv packet => (r.recvDV now port packet junk).finish

end Router

/-- The three alarms a router sets. -/
inductive AlarmType
  | expire
  | pingPong
  | update
  deriving DecidableEq, Repr

/-- `handle_alarm`. -/
def Router.handleAlarm (now : ℕ) (type : AlarmType) (r : Router) : Router × List Send :=
  match type with
  | .expire => if r.protocolType = .dv then (r.refreshDV now).finish else (r, [])
  | .pingPong => (r, r.generatePingPongMsg now)
  | .update => (r, if r.protocolType = .dv then r.updateDVTable else [])

/-- What can happen to a router. `junk` is what uninitialised memory holds. -/
inductive Event
  | recv (now port : ℕ) (packet : Packet) (junk : ℕ)
  | alarm (now : ℕ) (type : AlarmType)

/-- One call of `recv` or `handle_alarm`. -/
def Router.handle (event : Event) (r : Router) : Router × List Send :=
  match event with
  | .recv now port packet junk => r.recv now port packet junk
  | .alarm now type => r.handleAlarm now type

namespace Router

variable (r : Router) (now port junk : ℕ)

@[simp] theorem handle_data (source dest : ℕ) (payload : List UInt8) :
    r.handle (.recv now port (.data source dest payload) junk) = r.recvDATA source dest payload := rfl

@[simp] theorem handle_ping (source time : ℕ) :
    r.handle (.recv now port (.ping source time) junk) =
      (r, [(port, .pong r.routerId source time)]) := rfl

@[simp] theorem handle_pong (source dest time : ℕ) :
    r.handle (.recv now port (.pong source dest time) junk) =
      (r.handlePong now port source time).finish := rfl

@[simp] theorem handle_dv (packet : DVPacket) :
    r.handle (.recv now port (.dv packet) junk) = (r.recvDV now port packet junk).finish := rfl

@[simp] theorem handle_expire : r.handle (.alarm now .expire) =
    if r.protocolType = .dv then (r.refreshDV now).finish else (r, []) := rfl

@[simp] theorem handle_pingPong :
    r.handle (.alarm now .pingPong) = (r, r.generatePingPongMsg now) := rfl

@[simp] theorem handle_update :
    r.handle (.alarm now .update) = (r, if r.protocolType = .dv then r.updateDVTable else []) := rfl

end Router

/-- `init`. -/
def Router.init (numPorts routerId : ℕ) (protocolType : ProtocolType) : Router where
  protocolType := protocolType
  numPorts := numPorts
  routerId := routerId
  ports _ := ⟨0, 0, 0, false⟩
  directNeighbors := ∅
  forwardingTable := ∅
  dvMap := ∅
  erasedEnd := false

end ComputerNetworks.Routing
