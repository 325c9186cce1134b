import ComputerNetworks.Routing.Site

/-!
# What a call sends

The packets of a call carry the router's own id, and a DV packet goes to a connected
port and is made of the adverts of the call.
-/

namespace ComputerNetworks.Routing

/-- The adverts that a call hands to `sendDVUpdate`. -/
def Router.advertised (r : Router) : Event → List Advert
  | .recv now port (.pong source _ time) _ => (r.handlePong now port source time).newPacket
  | .recv now port (.dv packet) junk => (r.recvDV now port packet junk).newPacket
  | .alarm now .expire => if r.protocolType = .dv then (r.refreshDV now).newPacket else []
  | .alarm _ .update => if r.protocolType = .dv then r.fullTable else []
  | _ => []

@[simp] theorem Router.advertised_pong (r : Router) (now port source dest time junk : ℕ) :
    r.advertised (.recv now port (.pong source dest time) junk) =
      (r.handlePong now port source time).newPacket := rfl

@[simp] theorem Router.advertised_dv (r : Router) (now port junk : ℕ) (packet : DVPacket) :
    r.advertised (.recv now port (.dv packet) junk) = (r.recvDV now port packet junk).newPacket := rfl

@[simp] theorem Router.advertised_expire (r : Router) (now : ℕ) :
    r.advertised (.alarm now .expire) =
      if r.protocolType = .dv then (r.refreshDV now).newPacket else [] := rfl

@[simp] theorem Router.advertised_update (r : Router) (now : ℕ) :
    r.advertised (.alarm now .update) = if r.protocolType = .dv then r.fullTable else [] := rfl

/-- The router that built a packet. A DATA packet is passed on as it is. -/
def Packet.builder : Packet → Option ℕ
  | .data _ _ _ => none
  | .ping source _ => some source
  | .pong source _ _ => some source
  | .dv packet => some packet.source

namespace Router

variable {r : Router} {i : ℕ} {packet : DVPacket} {adverts : List Advert}

theorem mem_sendDVUpdate {p : Packet} : (i, p) ∈ r.sendDVUpdate adverts ↔
    i < r.numPorts ∧ (r.ports i).connected = true ∧ p = .dv (r.dvPacket adverts i) := by
  simp only [sendDVUpdate, List.mem_map, List.mem_filter, List.mem_range, Prod.mk.injEq]
  constructor
  · rintro ⟨j, ⟨inside, connected⟩, rfl, rfl⟩
    exact ⟨inside, connected, rfl⟩
  · rintro ⟨inside, connected, rfl⟩
    exact ⟨i, ⟨inside, connected⟩, rfl, rfl⟩

theorem mem_finish {u : Update} {p : Packet} (member : (i, p) ∈ u.finish.2) :
    i < u.router.numPorts ∧ (u.router.ports i).connected = true ∧
      p = .dv (u.router.dvPacket u.newPacket i) := by
  unfold Update.finish at member
  split_ifs at member
  · cases member
  · exact mem_sendDVUpdate.mp member

/-- A call sends at most one packet on each port, or one packet. -/
theorem length_handle_le (r : Router) (event : Event) :
    (r.handle event).2.length ≤ (r.handle event).1.numPorts + 1 := by
  have each : ∀ (s : Router) (adverts : List Advert), (s.sendDVUpdate adverts).length ≤ s.numPorts := by
    intro s adverts
    rw [sendDVUpdate, List.length_map]
    exact (List.length_filter_le _ _).trans List.length_range.le
  have finish : ∀ u : Update, u.finish.2.length ≤ u.finish.1.numPorts + 1 := by
    intro u
    unfold Update.finish
    split_ifs
    · exact Nat.zero_le _
    · exact (each u.router u.newPacket).trans (Nat.le_succ _)
  cases event with
  | recv now port packet junk =>
    cases packet with
    | data source dest payload =>
      rw [handle_data, recvDATA]
      split_ifs
      · exact Nat.zero_le _
      · split
        · exact Nat.zero_le _
        · split <;> exact Nat.le_add_left _ _
    | ping source time => exact Nat.le_add_left _ _
    | pong source dest time => exact finish _
    | dv packet => exact finish _
  | alarm now type =>
    cases type with
    | expire =>
      rw [handle_expire]
      split_ifs
      · exact finish _
      · exact Nat.zero_le _
    | pingPong =>
      rw [handle_pingPong, generatePingPongMsg, List.length_map, List.length_range]
      exact Nat.le_succ _
    | update =>
      rw [handle_update]
      split_ifs
      · exact (each r r.fullTable).trans (Nat.le_succ _)
      · exact Nat.zero_le _

/-- What a router may send: a DATA packet as it is, or a packet of its own. -/
inductive Sent (r : Router) (adverts : List Advert) (i : ℕ) : Packet → Prop
  | data (source dest : ℕ) (payload : List UInt8) : Sent r adverts i (.data source dest payload)
  | ping (time : ℕ) : Sent r adverts i (.ping r.routerId time)
  | pong (dest time : ℕ) : Sent r adverts i (.pong r.routerId dest time)
  | dv (connected : (r.ports i).connected = true) : Sent r adverts i (.dv (r.dvPacket adverts i))

theorem Sent.of_finish {u : Update} {p : Packet} (member : (i, p) ∈ u.finish.2) :
    Sent u.router u.newPacket i p := by
  obtain ⟨-, connected, rfl⟩ := mem_finish member
  exact .dv connected

/-- The packets of a call. -/
theorem handle_sent {event : Event} {p : Packet} (sent : (i, p) ∈ (r.handle event).2) :
    Sent (r.handle event).1 (r.advertised event) i p := by
  cases event with
  | recv now port received junk =>
    cases received with
    | data source dest payload =>
      rw [handle_data] at sent ⊢
      -- a packet for another router goes on as it came, or nowhere
      unfold recvDATA at sent
      split_ifs at sent
      · cases sent
      · split at sent
        · cases sent
        · split at sent <;> cases List.mem_singleton.mp sent <;> exact .data ..
    | ping source time =>
      rw [handle_ping] at sent ⊢
      cases List.mem_singleton.mp sent
      exact .pong ..
    | pong source dest time =>
      rw [handle_pong] at sent ⊢
      rw [advertised_pong]
      exact .of_finish sent
    | dv received =>
      rw [handle_dv] at sent ⊢
      rw [advertised_dv]
      exact .of_finish sent
  | alarm now type =>
    cases type with
    | expire =>
      rw [handle_expire] at sent ⊢
      rw [advertised_expire]
      split_ifs at sent ⊢
      · exact .of_finish sent
      · cases sent
    | pingPong =>
      rw [handle_pingPong] at sent ⊢
      obtain ⟨j, -, same⟩ := List.mem_map.mp sent
      cases same
      exact .ping now
    | update =>
      rw [handle_update] at sent ⊢
      rw [advertised_update]
      split_ifs at sent ⊢
      · obtain ⟨-, connected, rfl⟩ := mem_sendDVUpdate.mp sent
        exact .dv connected
      · cases sent

/-- A DV packet of a call goes to a port connected at its end and holds its adverts. -/
theorem handle_dvPacket {event : Event} (sent : (i, .dv packet) ∈ (r.handle event).2) :
    ((r.handle event).1.ports i).connected = true ∧
      packet = (r.handle event).1.dvPacket (r.advertised event) i := by
  cases handle_sent sent with
  | dv connected => exact ⟨connected, rfl⟩

/-- The packets a router builds carry its own id. -/
theorem builder_of_sent {event : Event} {p : Packet} {source : ℕ}
    (sent : (i, p) ∈ (r.handle event).2) (builder : p.builder = some source) :
    (r.handle event).1.routerId = source := by
  cases handle_sent sent with
  | data => cases builder
  | ping => exact Option.some.inj builder
  | pong => exact Option.some.inj builder
  | dv => exact Option.some.inj builder

end Router

end ComputerNetworks.Routing
